import RouteLens.Text.Table

/-!
# Letter case

Lower and upper case of whole texts.  A character may map to several; the capital sigma has a
special small form at the end of a word.
-/

namespace RouteLens.Text

/-- Lower case, character by character, where it differs from the character itself. -/
def lowerTable : MapTable := .ofLines
  ["41-19:61 66-16:e0 2-6:f8 22~17:101 2:69,307 2~2:133 3~7:13a 3~16:14b 2:ff 1~2:17a 4:253;183",
   "2:185 2:254;188 2-1:256 1:18c 3:1dd;259;25b;192 2:260;263 2:269;268;199 4:26f;272 2:275",
   "1~2:1a1 2:280;1a8 2:283 3:1ad 2:288;1b0 2-1:28a 1:1b4 2:1b6 2:292;1b9 4:1bd 8:1c6;1c6",
   "2:1c9;1c9 2:1cc 1~8:1cc 3~8:1df 3:1f3;1f3 2:1f5 2:195;1bf 1~13:1f9 2:19e 2~8:223 8:2c65;23c",
   "2:19a;2c66 3:242 2:180;289;28c 1~4:247 122:371 2:373 4:377 9:3f3 7:3ac 2-2:3ad 2:3cc 2-1:3cd",
   "2-10:3b1 2-8:3c3 24:3d7 9~b:3d9 6:3b8 3:3f8 2:3f2;3fb 3-2:37b 1-f:450 1-1f:430 31~10:461",
   "a~1a:48b 2:4cf 1~6:4c2 3~2f:4d1 3-25:561 b4a-25:2d00 2:2d27 6:2d2d 2d3-4f:ab70 1-5:13f8",
   "89b-2a:10d0 3-2:10fd 141~4a:1e01 a:df 2~2f:1ea1 a-7:1f00 9-5:1f10 b-7:1f20 9-7:1f30 9-5:1f40",
   "c~3:1f51 9-7:1f60 19-7:1f80 9-7:1f90 9-7:1fa0 9-1:1fb0 1-1:1f70 1:1fb3 c-3:1f72 1:1fc3",
   "c-1:1fd0 1-1:1f76 d-1:1fe0 1-1:1f7a 1:1fe5 c-1:1f78 1-1:1f7c 1:1ff3 12a:3c9 4:6b;e5 7:214e",
   "2e-f:2170 14:2184 333-19:24d0 731-2f:2c30 31:2c61 2:26b;1d7d;27d 3~2:2c68 2:251;271;250;252",
   "2:2c73 3:2c76 9-1:23f 1~31:2c81 9:2cec 2:2cee 5:2cf3 794e~16:a641 14~d:a681 88~6:a723",
   "4~1e:a733 b:a77a 2:a77c 2:1d79 1~4:a77f 5:a78c 2:265 3:a791 2:a793 4~9:a797",
   "2:266;25c;261;26c;26a 2:29e;287;29d;ab53 1~7:a7b5 2:a794;282;1d8e;a7c8 2:a7ca 7:a7d1 6:a7d7",
   "2:a7d9 1d:a7f6 572c-19:ff41 4c6-27:10428 89-23:104d8 9d-a:10597 2-e:105a3 2-6:105b3 2-1:105bb",
   "6eb-32:10cc0 bee-1f:118c0 5581-1f:16e60 7aa1-21:1e922"]

/-- Upper case, character by character, where it differs from the character itself. -/
def upperTable : MapTable := .ofLines
  ["61-19:41 3b:39c 2a:53,53 1-16:c0 2-6:d8 1:178 2~17:100 2:49 2~2:132 3~7:139 1:2bc,4e 2~16:14a",
   "3~2:179 1:53;243 3:182 2:184 3:187 4:18b 6:191 3:1f6 4:198;23d 4:220 3~2:1a0 3:1a7 5:1ac 3:1af",
   "4:1b3 2:1b5 3:1b8 4:1bc 2:1f7 6:1c4;1c4 2:1c7;1c7 2:1ca;1ca 2~7:1cd 1:18e 2~8:1de 1:4a,30c",
   "2:1f1;1f1 2:1f4 4~13:1f8 4~8:222 9:23b 3-1:2c7e 2:241 5~4:246 1:2c6f;2c6d;2c70;181;186 2-1:189",
   "2:18f 2:190;a7ab 4:193;a7ac 2:194 2:a78d;a7aa 2:197;196;a7ae;2c62;a7ad 3:19c 2:2c6e;19d 3:19f",
   "8:2c64 3:1a6 2:a7c5;1a9 4:a7b1;1ae;244 1-1:1b1 1:245 6:1b7 b:a7b2;a7b0 a7:399 2c:370 2:372",
   "4:376 4-2:3fd 13:399,308,301 1c:386 1-2:388 1:3a5,308,301 1-10:391 1:3a3 1-8:3a3 1:38c 1-1:38e",
   "2:392;398 4:3a6;3a0;3cf 2~b:3d8 1:39a;3a1;3f9;37f 2:395 3:3f7 3:3fa 35-1f:410 1-f:400 2~10:460",
   "a~1a:48a 3~6:4c1 1:4c0 2~2f:4d0 32-25:531 1:535,552 b49-2a:1c90 3-2:1cbd 2f9-5:13f0",
   "883:412;414;41e 1-1:421 1:422;42a;462;a64a f1:a77d 4:2c63 11:a7c6 73~4a:1e00",
   "1:48,331;54,308;57,30a;59,;41,2be;1e60 6~2f:1ea0 1-7:1f08 9-5:1f18 b-7:1f28 9-7:1f38 9-5:1f48",
   "b:3a5,313;1f59;3a5,313,300;1f5b;3a5,313,301;1f5d;3a5,313,342;1f5f 9-7:1f68 9-1:1fba 1-3:1fc8",
   "1-1:1fda 1-1:1ff8 1-1:1fea 1-1:1ffa 3:1f08,399;1f09,;1f0a,;1f0b,;1f0c,;1f0d,;1f0e,;1f0f,;1f08,",
   "1:1f09,;1f0a,;1f0b,;1f0c,;1f0d,;1f0e,;1f0f,;1f28,;1f29,",
   "1:1f2a,;1f2b,;1f2c,;1f2d,;1f2e,;1f2f,;1f28,;1f29,;1f2a,",
   "1:1f2b,;1f2c,;1f2d,;1f2e,;1f2f,;1f68,;1f69,;1f6a,;1f6b,",
   "1:1f6c,;1f6d,;1f6e,;1f6f,;1f68,;1f69,;1f6a,;1f6b,;1f6c,;1f6d,;1f6e,;1f6f, 1-1:1fb8",
   "1:1fba,399;391,;386, 2:391,342;,,399 5:,399 2:399 4:1fca,399;397,;389, 2:397,342;,,399 5:,399",
   "4-1:1fd8 1:399,308,300;,,301 3:,342;,308,342 9-1:1fe8",
   "1:3a5,308,300;,,301;3a1,313;1fec;3a5,342;,308,342 b:1ffa,399;3a9,;38f, 2:3a9,342;,,399 5:,399",
   "152:2132 22-f:2160 5:2183 34c-19:24b6 747-2f:2c00 2:2c60 4:23a;23e 2~2:2c67 7:2c72 3:2c75",
   "b~31:2c80 9:2ceb 2:2ced 5:2cf2 d-25:10a0 2:10c7 6:10cd 7914~16:a640 14~d:a680 88~6:a722",
   "4~1e:a732 b:a779 2:a77b 3~4:a77e 5:a78b 5:a790 2:a792;a7c4 3~9:a796 c~7:a7b4 5:a7c7 2:a7c9",
   "7:a7d0 6:a7d6 2:a7d8 1d:a7f5 35d:a7b3 1d-4f:13a0 4f41:46,46;,49;,4c;,46,49;,,4c;53,54;,",
   "d:544,546;,535;,53b;54e,546;544,53d 42a-19:ff21 4ce-27:10400 89-23:104b0 9c-a:10570 2-e:1057c",
   "2-6:1058c 2-1:10594 704-32:10c80 bce-1f:118a0 5581-1f:16e40 7aa3-21:1e900"]

/-- Characters that have case and that a word's end is not looked for behind. -/
def casedLetters : RangeTable := .ofLines
  ["41-19 7-19 30 b 5 6-16 2-1e 2-c2 2-3 5-cf 2-1a c1-3 3-1 4-2 2 7 2-2 2 2-13 2-52 2-8a 9-a5 2-25",
   "a-28 b18-25 2 6 3-2a 3-2 2a1-55 3-5 883-8 8-2a 3-2 41-2b 40-c 2-21 66-115 3-5 3-25 3-5 3-7 2 2",
   "2 2-1e 3-34 2-6 2 4-2 2-6 4-3 3-5 5-c 6-2 2-6 106 5 3-9 2 4-4 7 2 2 2-3 2-5 5 3-3 6-4 5 12-1f",
   "4-1 332-33 717-7b 3-66 7-3 4-1 d-25 2 6 7913-2d 13-1b 87-4d 2-16 4-3 2-3a 6-1 2 2-4 1c-1 4",
   "336-2a 6-8 8-4f 4f41-6 d-4 40a-19 7-19 4a6-4f 61-23 5-23 75-a 2-e 2-6 2-1 2-a 2-e 2-6 2-1",
   "6c4-32 e-32 bae-3f 5561-3f 6581-54 2-46 2-1 3 3-1 3-3 2-b 2 2-6 2-40 2-3 3-7 2-6 2-1b 2-3 2-4",
   "2 4-6 2-153 3-18 2-18 2-1e 2-18 2-1e 2-18 2-1e 2-18 2-1e 2-18 2-7 735-9 2-13 9e2-43 7ed-19",
   "7-19 7-19"]

/-- Marks that are passed over when the end of a word is looked for. -/
def caseIgnorable : RangeTable := .ofLines
  ["27 7 c 24 2 48 5 2 5 3-1 1f8-bf 5-1 5 a-1 2 fc-6 d0 6 32-2c 2 2-1 2-1 2 2d c-5 b-a 2 24 b-14",
   "11 66-7 2-9 2-3 22 2 1f-1a 5c-a 3b-a 5 3 19-17 2c-2 2d 8-1 7-7 2a-39 38 2 5-7 5 4-6 b-1 e 10",
   "3b 5-3 9 15-1 1b 3-1 3a 5-1 5-1 3-2 4 1f-1 4 c-1 3a 5-4 2-1 5 15-1 17-5 2 3b 3 2-3 9 8-1 c-1",
   "1f 3e d 33 4 38 2-2 6-2 2-3 8-1 c-1 1e 3b 3 7 6-1 15-1 1d-1 3a-1 5-3 9 15-1 1e 49 8-2 2 5b 3-6",
   "c-8 63 3-8 a 2-5 4b-1 1c 2 2 38-d 2-4 2-1 6-a 2-23 a 67-3 2-5 2-1 3-1 1a-1 5-2 11-3 e 3-1 7 10",
   "5f 261-2 3b3-2 1e-1 1f-1 1f-1 41-1 2-6 9 3-a 4 6 2e-4 34 42-1 23 77-2 5-1 a 7-2 dc-1 3 3b 2-6",
   "2 2 3-7 7-9 3 28 9-1e 32-3 31 2-4 2 6 29-8 d-1 21-3 3-1 2-2 39 2-1 4 2-2 3b-7 3-1 41-5 53-2",
   "2-c 2-6 5 7 4-1 33-3e e 23-64 1be 2-2 c-2 e-2 e-2 e-1 d-4 9-1 b 3 3-4 32-4 2-9 2 e 11-c 34-20",
   "b8c-1 72-2 7e 10 61-1f 30 1d6 25-3 4-4 6 5e-5 5e-2 6f17 4e3-5 10f 63-3 2-9 2 1d-3 51-1 f-21 4f",
   "18-2 68-2 4-1 9 4 5 1a-1 6 98-1 1b-11 e 27-7 1a-a 2f-2 31 3-3 3-1 12 16-1 43-5 3-1 3-1 d 9 24",
   "c 34 2-2 3-1 6-1 2 1c f-1 6-1 2 65-4 a-2 7a 3 5 4f31 94-10 23e-f 4 d-f 23 3 aa 8 7 c 24 2 30",
   "2e-1 44 16-2 202 e3 96-4 406-5 2-29 2-8 247-2 2-1 6-3 29-2 5 a6-1 23e-3 184-1 9a-a 32-3 7c",
   "37-e 2a 3-1 b-2 32-3 3-1 3 5 b 33-2 25-4 2-7 3f d-1 35-8 b-3 3 60-2 3 2-1 7 a1 4-7 16-1 3a-1 4",
   "26-6 4-4 c4-7 3-2 2 18 55-5 2 5-1 2-1 ef-3 7-1 2-1 1c-1 56-7 3 2-1 6b 2 3-5 2 66-2 3-3 2-4",
   "104-8 2-1 101-1 2 5 91-3 3-1 5 21-9 29-5 3-3 9 a-5 3-2 2f-c 2-1 197-6 2-5 2 53-15 3-6 2-1 2-1",
   "7b-5 4 2-1 2-6 2 49-1 4 2 15c-1 153c-8 36b8-4 3c-6 a-3 40c 40-10 41-1 2-1 400c-3 2-6 2-1 c9f-1",
   "2-3 125d-2d 3-16 221-2 a-f 3-6 1f-3 95-2 7bc-36 5-31 9 f 17-4 2-e 551-6 2-10 3-6 2-1 2-4 106-d",
   "171 3e-3 5e1-6 6e-7 ab0-4 c0c02 1f-5f 81-ef"]

/-- Whether the nearest character that counts, marks passed over, has case. -/
def nextIsCased (cs : List Char) : Bool :=
  match cs.dropWhile caseIgnorable.contains with
  | [] => false
  | c :: _ => casedLetters.contains c

/-- The capital sigma. -/
def capitalSigma : Char := 'Σ'

/-- Lower case of one character by itself.  The first 128 code points need no table. -/
def lowerOf (c : Char) : List Char :=
  if c.toNat < 128 then [c.toLower] else lowerTable.apply c

/-- Lower case of a text, given the characters before it in reverse order. -/
def lowerFrom (before : List Char) : List Char → List Char
  | [] => []
  | c :: cs =>
    let out :=
      if c == capitalSigma then
        [if nextIsCased before && !nextIsCased cs then 'ς' else 'σ']
      else lowerOf c
    out ++ lowerFrom (c :: before) cs

/-- The text in lower case. -/
def toLower (s : String) : String :=
  String.ofList (lowerFrom [] s.toList)

/-- The text in upper case. -/
def toUpper (s : String) : String :=
  String.ofList (s.toList.flatMap upperTable.apply)

end RouteLens.Text
