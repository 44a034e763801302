import RouteLens.Text.Table

/-!
# Compatibility form of names

Two spellings of a name that differ only in compatibility variants or in how accents are composed
denote the same name.  The normal form decomposes every character fully, orders the marks by their
class, and composes again.  Hangul syllables follow arithmetic instead of a table.
-/

namespace RouteLens.Text

/-- Full compatibility decomposition of the characters a name may hold, those apart that are
composed of two characters, and Hangul syllables. -/
def decompositionTable : MapTable := .ofLines
  ["aa:61 b:3bc 5:6f 78:49,4a;69,6a c:4c,b7;6c, 9:2bc,6e 36:73",
   "45:44,5a,30c;,7a,;64,,;4c,4a;,6a;6c,;4e,4a;,6a;6e, 25:44,5a;,7a;64,",
   "bd:68;266;6a;72;279;27b;281;77;79 28:263;6c;73;78;295 5c:300;301 2:313;308,301 30:2b9 13:b7",
   "49:3b2;3b8;3a5 3:3c6;3c0 1a:3ba;3c1;3c2 2:398;3b5 4:3a3 18e:565,582 ee:627,674;648,;6c7,;64a,",
   "2e0:915,93c;916,;917,;91c,;921,;922,;92b,;92f, 7d:9a1,9bc;9a2, 2:9af, 54:a32,a3c 3:a38,",
   "23:a16,;a17,;a1c, 3:a2b, fe:b21,b3c;b22, 2d6:e4d,e32 80:ecd,eb2 29:eab,e99;,ea1 66:f42,fb7",
   "a:f4c, 5:f51, 5:f56, 5:f5b, d:f40,fb5 a:f71,f72 2:,f74;fb2,f80;,f71,f80;fb3,f80;,f71,f80",
   "8:f71,f80 12:f92,fb7 a:f9c, 5:fa1, 5:fa6, 5:fab, d:f90,fb5 143:10dc c30:41;c6;42 2:44;45;18e",
   "1-7:47 2:4f;222;50;52;54;55;57;61;250;251;1d02;62;64;65;259;25b;25c;67",
   "2:6b;6d;14b;6f;254;1d16;1d17;70;74;75;1d1d;26f;76",
   "1:1d25;3b2;3b3;3b4;3c6;3c7;69;72;75;76;3b2;3b3;3c1;3c6;3c7 e:43d",
   "23:252;63;255;f0;25c;66;25f;261;265;268;269;26a;1d7b;29d;26d;1d85;29f;271;270 1-3:272",
   "1:278;282;283;1ab;289;28a;1d1c;28b;28c;7a;290;291;292;3b8 db:61,2be d7:3b1,301 2:3b5, 2:3b7,",
   "2:3b9, 2:3bf, 2:3c5, 2:3c9, 3e:391, 3:3b9 b:395,301 2:397, 8:3b9,308,301 8:399,301",
   "8:3c5,308,301 8:3a5,301 e:39f, 2:3a9, 76:69 e:6e 11:61;65;6f;78;259;68 1-3:6b 1:70;73;74 66:43",
   "5:190 3:67;48;48;48;68;127;49;49;4c;6c 2:4e 4:50;51;52;52;52 7:5a 2:3a9 2:5a 2:4b;41,30a;42;43",
   "2:65;45;46 2:4d;6f 1-3:5d0 1:69 3:3c0;3b3;393;3a0 6:44;64;65;69;6a",
   "17:49;,49;,,49;,56;56;,49;,,49;,,,49",
   "1:49,58;58;,49;,,49;4c;43;44;4d;69;,69;,,69;,76;76;,69;,,69;,,,69",
   "1:69,78;78;,69;,,69;6c;63;64;6d afd:6a;56 f2:2d61 2c9:=十卄卅 65:3088,308a 60:30b3,30c8",
   "32:1100;1101;11aa;1102;11ac;11ad;1103;1104;1105 1-5:11b0 1:111a;1106;1107;1108;1121 1-9:1109",
   "1-14:1161 1:1160;1114;1115;11c7;11c8;11cc;11ce",
   "1:11d3;11d7;11d9;111c;11dd;11df;111d;111e;1120;1122;1123;1127;1129 1-4:112b 1:1132",
   "1:1136;1140;1147;114c;11f1;11f2;1157;1158;1159;1184;1185;1188;1191;1192;1194;119e;11a1",
   "750e:44a;44c d3:a76f 82:43;46;51 4:126;153 363:a727;ab37;26b;ab52 a:28d",
   "4d97:=豈更車賈滑串句龜龜契金喇奈懶癩羅蘿螺裸邏樂洛烙珞落酪駱亂卵欄爛蘭鸞嵐濫藍襤拉臘蠟廊朗浪狼郎來冷勞擄櫓爐盧老蘆虜路露魯鷺碌",
   "1:=祿綠菉錄鹿論壟弄籠聾牢磊賂雷壘屢樓淚漏累縷陋勒肋凜凌稜綾菱陵讀拏樂諾丹寧怒率異北磻便復不泌數索參塞省葉說殺辰沈拾若掠略亮",
   "1:=兩凉梁糧良諒量勵呂女廬旅濾礪閭驪麗黎力曆歷轢年憐戀撚漣煉璉秊練聯輦蓮連鍊列劣咽烈裂說廉念捻殮簾獵令囹寧嶺怜玲瑩羚聆鈴零靈",
   "1:=領例禮醴隸惡了僚寮尿料樂燎療蓼遼龍暈阮劉杻柳流溜琉留硫紐類六戮陸倫崙淪輪律慄栗率隆利吏履易李梨泥理痢罹裏裡里離匿溺吝燐璘",
   "1:=藺隣鱗麟林淋臨立笠粒狀炙識什茶刺切度拓糖宅洞暴輻行降見廓兀嗀 3:585a 2:6674 3:=凞猪益礼神祥福靖精羽 2:8612 2:8af8 3:9038;90fd",
   "4:=飯飼館鶴郞隷侮僧免勉勤卑喝嘆器塀墨層屮悔慨憎懲敏既暑梅海渚漢煮爫琢碑社祉祈祐祖祝禍禎穀突節練縉繁署者臭艹艹著褐視謁謹賓贈 1:=辶逸難響頻恵𤋮舘",
   "3:=並况全侀充冀勇勺喝啕喙嗢塚墳奄奔婢嬨廒廙彩徭惘慎愈憎慠懲戴揄搜摒敖晴朗望杖歹殺流滛滋漢瀞煮瞧爵犯猪瑱甆画瘝瘟益盛直睊着磌",
   "1:=窱節类絛練缾者荒華蝹襁覆視調諸請謁諾諭謹變贈輸遲醙鉶陼難靖韛響頋頻鬒龜𢡊𢡄𣏕㮝䀘䀹𥉉𥳐𧻓齃龎 27:66,66;,69;,6c;,66,69;,,6c;73,74;,",
   "d:574,576;,565;,56b;57e,576;574,56d 6:5d9,5b4 2:5f2,5b7;5e2;5d0;5d3;5d4;5db;5dc;5dd;5e8;5ea",
   "2:5e9,5c1;,5c2;,5bc,5c1;,,5c2;5d0,5b7;,5b8;,5bc;5d1,;5d2,;5d3,;5d4,;5d5,;5d6,",
   "2:5d8,;5d9,;5da,;5db,;5dc, 2:5de, 2:5e0,;5e1, 2:5e3,;5e4,",
   "2:5e6,;5e7,;5e8,;5e9,;5ea,;5d5,5b9;5d1,5bf;5db,;5e4,;5d0,5dc;671;671;67b;67b",
   "1:67b;67b;67e;67e;67e;67e;680;680;680;680;67a;67a;67a;67a;67f;67f;67f;67f;679;679;679;679",
   "1:6a4;6a4;6a4;6a4;6a6;6a6;6a6;6a6;684;684;684;684;683;683;683;683;686;686;686;686;687;687",
   "1:687;687;68d;68d;68c;68c;68e;68e;688;688;698;698;691;691;6a9;6a9;6a9;6a9;6af;6af;6af;6af",
   "1:6b3;6b3;6b3;6b3;6b1;6b1;6b1;6b1;6ba;6ba;6bb;6bb;6bb;6bb;6d5,654;,;6c1;6c1;6c1;6c1",
   "1:6be;6be;6be;6be;6d2;6d2;,654;, 22:6ad;6ad;6ad;6ad;6c7;6c7;6c6;6c6;6c8;6c8",
   "1:6c7,674;6cb;6cb;6c5;6c5;6c9;6c9;6d0;6d0;6d0;6d0;649;649;64a,654,627;,,",
   "1:,,6d5;,,;,,648;,,;,,6c7;,,;,,6c6;,,;,,6c8;,,;,,6d0;,,;,,;,,649",
   "1:,,;,,;6cc;6cc;6cc;6cc;64a,654,62c;,,62d;,,645;,,649",
   "1:,,64a;628,62c;,62d;,62e;,645;,649;,64a;62a,62c;,62d;,62e",
   "1:,645;,649;,64a;62b,62c;,645;,649;,64a;62c,62d;,645;62d,62c;,645",
   "1:62e,62c;,62d;,645;633,62c;,62d;,62e;,645;635,62d;,645;636,62c;,62d",
   "1:,62e;,645;637,62d;,645;638,;639,62c;,645;63a,62c;,645;641,62c;,62d",
   "1:,62e;,645;,649;,64a;642,62d;,645;,649;,64a;643,627;,62c;,62d",
   "1:,62e;,644;,645;,649;,64a;644,62c;,62d;,62e;,645;,649;,64a",
   "1:645,62c;,62d;,62e;,645;,649;,64a;646,62c;,62d;,62e;,645;,649",
   "1:,64a;647,62c;,645;,649;,64a;64a,62c;,62d;,62e;,645;,649;,64a;630,670;631,;649,",
   "7:64a,654,631;,,632;,,645;,,646;,,649",
   "1:,,64a;628,631;,632;,645;,646;,649;,64a;62a,631;,632;,645",
   "1:,646;,649;,64a;62b,631;,632;,645;,646;,649;,64a;641,649;,64a",
   "1:642,649;,64a;643,627;,644;,645;,649;,64a;644,645;,649;,64a;645,627",
   "1:,645;646,631;,632;,645;,646;,649;,64a;649,670;64a,631;,632;,645",
   "1:,646;,649;,64a;,654,62c;,,62d;,,62e;,,645;,,647",
   "1:628,62c;,62d;,62e;,645;,647;62a,62c;,62d;,62e;,645;,647;62b,645",
   "1:62c,62d;,645;62d,62c;,645;62e,62c;,645;633,62c;,62d;,62e;,645;635,62d",
   "1:,62e;,645;636,62c;,62d;,62e;,645;637,62d;638,645;639,62c;,645;63a,62c",
   "1:,645;641,62c;,62d;,62e;,645;642,62d;,645;643,62c;,62d;,62e;,644",
   "1:,645;644,62c;,62d;,62e;,645;,647;645,62c;,62d;,62e;,645;646,62c",
   "1:,62d;,62e;,645;,647;647,62c;,645;,670;64a,62c;,62d;,62e;,645",
   "1:,647;,654,645;,,647;628,645;,647;62a,645;,647;62b,645;,647;633,645",
   "1:,647;634,645;,647;643,644;,645;644,;646,;,647;64a,645;,647",
   "1:640,64e,651;,64f,;,650,;637,649;,64a;639,649;,64a;63a,649;,64a",
   "1:633,649;,64a;634,649;,64a;62d,649;,64a;62c,649;,64a;62e,649;,64a;635,649",
   "1:,64a;636,649;,64a;634,62c;,62d;,62e;,645;,631;633,;635,;636,",
   "1:637,649;,64a;639,649;,64a;63a,649;,64a;633,649;,64a;634,649;,64a;62d,649",
   "1:,64a;62c,649;,64a;62e,649;,64a;635,649;,64a;636,649;,64a;634,62c;,62d",
   "1:,62e;,645;,631;633,;635,;636,;634,62c;,62d;,62e;,645;633,647",
   "1:634,;637,645;633,62c;,62d;,62e;634,62c;,62d;,62e;637,645;638,;627,64b;,",
   "13:62a,62c,645;,62d,62c;,,;,,645;,62e,;,645,62c",
   "1:,,62d;,,62e;62c,,62d;,,;62d,,64a;,,649;633,62d,62c",
   "1:,62c,62d;,,649;,645,62d;,,;,,62c;,,645;,,",
   "1:635,62d,62d;,,;,645,645;634,62d,;,,;,62c,64a;,645,62e",
   "1:,,;,,645;,,;636,62d,649;,62e,645;,,;637,645,62d 1:,,;,,645;,,64a;639,62c,645;,645,;,,;,,649",
   "1:63a,,645;,,64a;,,649;641,62e,645;,,;642,645,62d;,,645",
   "1:644,62d,;,,64a;,,649;,62c,62c;,,;,62e,645;,,",
   "1:,645,62d;,,;645,62d,62c;,,645;,,64a;,62c,62d;,,645;,62e,62c;,,645",
   "3:,62c,62e;647,645,62c;,,645;646,62d,;,,649;,62c,645;,,;,,649;,645,64a;,,649;64a,,645;,,",
   "1:628,62e,64a;62a,62c,;,,649;,62e,64a;,,649;,645,64a;,,649",
   "1:62c,,64a;,62d,649;,645,;633,62e,;635,62d,64a;634,,;636,,",
   "1:644,62c,;,645,;64a,62d,;,62c,;,645,;645,,;642,,",
   "1:646,62d,;642,645,62d;644,62d,645;639,645,64a;643,,;646,62c,62d;645,62e,64a",
   "1:644,62c,645;643,645,;644,62c,;646,,62d;62c,62d,64a;62d,62c,;645,,",
   "1:641,645,;628,62d,;643,645,645;639,62c,;635,645,;633,62e,64a;646,62c,",
   "29:635,644,6d2;642,,;627,,644,647;,643,628,631;645,62d,645,62f;635,644,639,645",
   "1:631,633,648,644;639,644,64a,647;648,633,644,645;635,644,649 3a:5f;5f 19:5f;5f;5f 22:640,64b",
   "6:,64e 2:,64f 2:,650 2:,651 2:,652;621;627,653;,;,654;,;648,;,;627,655;,;64a,654;,;,;,",
   "1:627;627;628;628;628;628;629;629;62a;62a;62a;62a;62b;62b;62b;62b;62c;62c;62c;62c;62d;62d",
   "1:62d;62d;62e;62e;62e;62e;62f;62f;630;630;631;631;632;632;633;633;633;633;634;634;634;634",
   "1:635;635;635;635;636;636;636;636;637;637;637;637;638;638;638;638;639;639;639;639;63a;63a",
   "1:63a;63a;641;641;641;641;642;642;642;642;643;643;643;643;644;644;644;644;645;645;645;645",
   "1:646;646;646;646;647;647;647;647;648;648;649;649;64a;64a;64a;64a;644,627,653;,,",
   "1:,,654;,,;,,655;,,;,;, 14-9:30 8-19:41 5:5f 2-19:61",
   "c:30f2;30a1;30a3;30a5;30a7;30a9;30e3;30e5;30e7;30c3;30fc;30a2;30a4;30a6",
   "1:30a8;30aa;30ab;30ad;30af;30b1;30b3;30b5;30b7;30b9;30bb;30bd;30bf;30c1;30c4;30c6;30c8",
   "1-5:30ca 1:30d2;30d5;30d8;30db 1-4:30de 1:30e4;30e6 1-5:30e8",
   "1:30ef;30f3;3099;309a;1160;1100;1101;11aa;1102;11ac;11ad;1103;1104;1105 1-5:11b0",
   "1:111a;1106;1107;1108;1121 1-9:1109 4-5:1161 3-5:1167 3-5:116d 3:1173;1174;1175",
   "7a5:2d0;2d1;e6;299;253 2:2a3;ab66;2a5;2a4;256;257;1d91;258;25e;2a9;264;262",
   "1:260;29b;127;29c;267;284;2aa;2ab;26c;1df04;a78e;26e;1df05;28e;1df06;f8;276;277;71;27a",
   "1:1df08;27d;27e;280;2a8;2a6;ab67;2a7;288;2c71 2:28f;2a1;2a2;298;1c0;1c1;1c2;1df0a;1df1e",
   "cc46-19:41 1-19:61 1-19:41 1-6:61 2-11:69 1-19:41 1-19:61 1:41 2:43;44 3:47 3:4a;4b 3-3:4e",
   "2-7:53 1-3:61 2:66 2-6:68 2-a:70 1-19:41 1-19:61 1:41;42 2-3:44 3-7:4a 2-6:53 2-19:61 1:41;42",
   "2-3:44 2-4:49 2:4f 4-6:53 2-19:61 1-19:41 1-19:61 1-19:41 1-19:61 1-19:41 1-19:61 1-19:41",
   "1-19:61 1-19:41 1-19:61 1-19:41 1-19:61 1:131;237 3-10:391 1:398 1-6:3a3 2-18:3b1",
   "2:3b5;3b8;3ba;3c6;3c1;3c0 1-10:391 1:398 1-6:3a3 2-18:3b1 2:3b5;3b8;3ba;3c6;3c1;3c0 1-10:391",
   "1:398 1-6:3a3 2-18:3b1 2:3b5;3b8;3ba;3c6;3c1;3c0 1-10:391 1:398 1-6:3a3 2-18:3b1",
   "2:3b5;3b8;3ba;3c6;3c1;3c0 1-10:391 1:398 1-6:3a3 2-18:3b1 2:3b5;3b8;3ba;3c6;3c1;3c0;3dc;3dd",
   "3-9:30 1-9:30 1-9:30 1-9:30 1-9:30 1601:627;628;62c;62f 2:648;632;62d;637;64a 1-3:643",
   "1:633;639;641;635;642;631;634;62a;62b;62e;630;636;638;63a;66e;6ba;6a1;66f 2:628;62c 2:647",
   "3:62d 2:64a 1-3:643 1:633;639;641;635;642 2:634;62a;62b;62e 2:636 2:63a 7:62c 5:62d 2:64a",
   "2:644 2:646;633;639 2:635;642 2:634 3:62e 2:636 2:63a 2:6ba 2:66f 2:628;62c 2:647",
   "3:62d;637;64a;643 2:645;646;633;639;641;635;642 2:634;62a;62b;62e 2:636;638;63a;66e 2:6a1",
   "2:627;628;62c;62f;647;648;632;62d;637;64a",
   "2:644;645;646;633;639;641;635;642;631;634;62a;62b;62e;630;636;638;63a 6:628;62c;62f",
   "2:648;632;62d;637;64a 2:644;645;646;633;639;641;635;642;631;634;62a;62b;62e;630;636;638;63a",
   "d35-9:30 fc07:=丽丸乁𠄢你侮侻倂偺備僧像㒞𠘺免兔兤具𠔜㒹內再𠕋冗冤仌冬况𩇟凵刃㓟刻剆割剷㔕勇勉勤勺包匆北卉卑博即卽卿卿卿𠨬灰及叟𠭣叫叱吆",
   "1:=咞吸呈周咢哶唐啓啣善善喙喫喳嗂圖嘆圗噑噴切壮城埴堍型堲報墬𡓤売壷夆多夢奢𡚨𡛪姬娛娧姘婦㛮㛼嬈嬾嬾𡧈寃寘寧寳𡬘寿将当尢㞁屠",
   "1:=屮峀岍𡷤嵃𡷦嵮嵫嵼巡巢㠯巽帨帽幩㡢𢆃㡼庰庳庶廊𪎒廾𢌱𢌱舁弢弢㣇𣊸𦇚形彫㣣徚忍志忹悁㤺㤜悔𢛔惇慈慌慎慌慺憎憲憤憯懞懲懶成戛",
   "1:=扝抱拔捐𢬌挽拼捨掃揤𢯱搢揅掩㨮摩摾撝摷㩬敏敬𣀊旣書晉㬙暑㬈㫤冒冕最暜肭䏙朗望朡杞杓𣏃㭉柺枅桒梅𣑭梎栟椔㮝楂榣槪檨𣚣櫛㰘次",
   "1:=𣢧歔㱎歲殟殺殻𣪍𡴋𣫺汎𣲼沿泍汧洖派海流浩浸涅𣴞洴港湮㴳滋滇𣻑淹潮𣽞𣾎濆瀹瀞瀛㶖灊災灷炭𠔥煅𤉣熜𤎫爨爵牐𤘈犀犕𤜵𤠔獺王㺬玥",
   "1:=㺸㺸瑇瑜瑱璅瓊㼛甤𤰶甾𤲒異𢆟瘐𤾡𤾸𥁄㿼䀈直𥃳𥃲𥄙𥄳眞真真睊䀹瞋䁆䂖𥐝硎碌磌䃣𥘦祖𥚚𥛅福秫䄯穀穊穏𥥼𥪧𥪧竮䈂𥮫篆築䈧𥲀糒䊠",
   "1:=糨糣紀𥾆絣䌁緇縂繅䌴𦈨𦉇䍙𦋙罺𦌾羕翺者𦓚𦔣聠𦖨聰𣍟䏕育脃䐋脾媵𦞧𦞵𣎓𣎜舁舄辞䑫芑芋芝劳花芳芽苦𦬼若茝荣莭茣莽菧著荓菊菌菜",
   "1:=𦰶𦵫𦳕䔫蓱蓳蔖𧏊蕤𦼬䕝䕡𦾱𧃒䕫虐虜虧虩蚩蚈蜎蛢蝹蜨蝫螆䗗蟡蠁䗹衠衣𧙧裗裞䘵裺㒻𧢮𧥦䚾䛇誠諭變豕𧲨貫賁贛起𧼯𠠄跋趼跰𠣞軔輸",
   "1:=𨗒𨗭邔郱鄑𨜮鄛鈸鋗鋘鉼鏹鐕𨯺開䦕閷𨵷䧦雃嶲霣𩅅𩈚䩮䩶韠𩐊䪲𩒖頋頋頩𩖶飢䬳餩馧駂駾䯎𩬰鬒鱀鳽䳎䳭鵧𪃎䳸𪄅𪈎𪊑麻䵖黹黾鼅鼏鼖 1:=鼻𪘀"]

/-- The class of each combining mark; all other characters have class zero. -/
def markClasses : ClassTable := .ofLines
  ["300-14:e6 1:e8 1-3:dc 1:e8;d8 1-4:dc 1-1:ca 1-3:dc 1-1:ca 1-a:dc 1-4:1 1-3:dc 1-2:e6 3:e6",
   "3:f0;e6 1-2:dc 1-2:e6 1-1:dc 2-2:e6 1-3:dc 1:e6;e8 1-1:dc 1:e6;e9 1-1:ea 1:e9 1-1:ea 1:e9",
   "1-c:e6 114-4:e6 10a:dc 1-3:e6 1:dc 1-2:e6 1:de;dc 1-5:e6 1-5:dc 1-1:e6 1:dc 1-1:e6",
   "1:de;e4;e6;a;b;c;d;e;f;10;11;12 1-1:13 1:14;15;16 2:17 2:18;19 2:e6;dc 2:12 49-7:e6 1:1e;1f;20",
   "31:1b;1c;1d;1e;1f;20;21;22 1-1:e6 1-1:dc 1-4:e6 1:dc 1-1:e6 1:dc 11:23 66-6:e6 3-3:e6 1:dc;e6",
   "3-1:e6 2:dc 1-1:e6 1:dc 24:24 1f:e6;dc 1-1:e6 1:dc 1-1:e6 1-2:dc 1:e6 1-1:dc 1:e6;dc 1-2:e6",
   "1:dc;e6;dc;e6;dc;e6;dc 1-1:e6 a1-6:e6 1:dc;e6 a:dc 19-3:e6 2-8:e6 2-2:e6 2-4:e6 2c-2:dc 3d:e6",
   "1-2:dc 1-3:e6 2b-4:e6 1-4:dc 1-d:e6 2:dc 1-1:e6 1:dc 1-1:e6 1:dc 1-2:e6 1-2:dc 1:1b;1c;1d",
   "1-2:e6 1:dc 1-1:e6 1-1:dc 1-4:e6 3d:7 11:9 4:e6;dc 1-1:e6 68:7 11:9 31:e6 3e:7 11:9 6f:7 11:9",
   "6f:7 11:9 80:9 6f:7 11:9 8:54;5b 66:7 11:9 6e-1:9 11:9 7d:9 6e-1:67 1:9 e-3:6b 6d-1:76 1:9",
   "e-3:7a 4d-1:dc 1c:dc 2:dc 2:d8 38:81;82 2:84 6-3:82 3:82 2-1:e6 1:9 2-1:e6 3f:dc 71:7 2-1:9",
   "53:dc 2d0-2:e6 3b5-1:9 1f:9 9e:9 b:e6 cc:e4 90:de;e6;dc dc:e6;dc 48:9 15-7:e6 3:dc 31-4:e6",
   "1-5:dc 1-1:e6 1:dc 2-1:dc 1-1:e6 1-1:dc 1-4:e6 1:dc 1-3:e6 66:7 10:9 27:e6;dc 1-6:e6 37-1:9",
   "3b:7 c-1:9 44:7 99-2:e6 2:1 1-4:dc 1-1:e6 1-3:dc 1:e6 2-6:1 5:dc 7:e6 4-1:e6 c7-1:e6 1:dc",
   "1-6:e6 1:dc 1-1:e6 1:ea;d6;dc;ca 1-24:e6 1:e8 1-1:e4 1:dc;da;e6;e9;dc;e6;dc 2d1-1:e6 1-1:1",
   "1-3:e6 1-2:1 1-1:e6 5:e6 4-1:1 1:e6;dc;e6 1-1:1 1-3:dc 1:e6 bff-2:e6 8e:9 61-1f:e6",
   "22b:da;e4;e8;de 1-1:e0 6a-1:8 75d5:e6 5-9:e6 21-1:e6 51-1:e6 115:9 26:9 98:9 1c-11:e6 3a-2:dc",
   "26:9 60:7 d:9 f0:e6 2-1:e6 1:dc 3-1:e6 6-1:e6 2:e6 35:9 f7:9 4f31:1a 302-6:e6 1-6:dc 1-1:e6",
   "3ce:dc e3:dc 96-4:e6 693:dc 2:e6 29:e6;1;dc 5:9 a6:e6;dc 23e-3:e6 184-1:e6 9a-1:dc 1-2:e6",
   "1:dc;e6 1-3:dc 32:e6;dc;e6;dc c1:9 2a:9 f:9 3a:9;7 46-2:e6 31-1:9 3f:7 4d:9 a:7 6b:9;7 b3:7;9",
   "51-1:7 11:9 19-6:e6 4-4:e6 ce:9 4:7 18:e6 64:9;7 fc:9;7 7f:9 77:9;7 74:9 10e:9;7 103-1:9 5:7",
   "9d:9 54:9 13:9 52:9 1a6:9 103:7 2-1:9 52:9 4d59-4:1 3c-6:e6 4ba-1:6 4cad:1 14c7-1:d8 1-2:1",
   "4:e2 1-4:d8 9-7:dc 3-4:e6 1-1:dc 1f-3:e6 95-2:e6 dbc-6:e6 2-10:e6 3-6:e6 2-1:e6 2-4:e6",
   "106-6:e6 178:e6 3e-3:e6 5e1-6:dc 6e-5:e6 1:7"]

/-- Each composed character with the two characters it is composed of. -/
def compositionLines : List String :=
  ["c0:41,300;,301;,302;,303;,308;,30a 2:43,327;45,300;,301;,302;,308;49,300;,301;,302;,308",
   "2:4e,303;4f,300;,301;,302;,303;,308 3:55,300;,301;,302;,308;59,301",
   "3:61,300;,301;,302;,303;,308;,30a 2:63,327;65,300;,301;,302;,308;69,300;,301;,302;,308",
   "2:6e,303;6f,300;,301;,302;,303;,308 3:75,300;,301;,302;,308;79,301",
   "2:,308;41,304;61,;41,306;61,;41,328;61,;43,301 1:63,;43,302;63,;43,307;63,;43,30c;63,;44,;64,",
   "3:45,304;65,;45,306 1:65,;45,307;65,;45,328;65,;45,30c;65,;47,302;67,;47,306;67,;47,307;67,",
   "1:47,327;67,;48,302;68, 3:49,303;69,;49,304;69,;49,306;69,;49,328;69,;49,307",
   "4:4a,302;6a,;4b,327;6b, 2:4c,301;6c,;4c,327;6c,;4c,30c;6c, 5:4e,301;6e,;4e,327;6e,;4e,30c;6e,",
   "4:4f,304;6f,;4f,306;6f,;4f,30b;6f,",
   "3:52,301;72,;52,327;72,;52,30c;72,;53,301;73,;53,302;73,;53,327;73,;53,30c;73,",
   "1:54,327;74,;54,30c;74, 3:55,303;75,;55,304;75,;55,306;75,;55,30a;75,",
   "1:55,30b;75,;55,328;75,;57,302;77,;59,;79,;59,308;5a,301;7a,;5a,307;7a,;5a,30c;7a,",
   "22:4f,31b;6f, e:55,;75,",
   "1d:41,30c;61,;49,;69,;4f,;6f,;55,;75,;dc,304;fc,;dc,301;fc,;dc,30c;fc,;dc,300;fc,",
   "2:c4,304;e4,;226,;227,;c6,;e6, 3:47,30c;67,;4b,;6b,;4f,328;6f,;1ea,304;1eb,;1b7,30c;292,;6a,",
   "4:47,301;67, 3:4e,300;6e,;c5,301;e5,;c6,",
   "1:e6,;d8,;f8,;41,30f;61,;41,311;61,;45,30f;65,;45,311;65,;49,30f;69,",
   "1:49,311;69,;4f,30f;6f,;4f,311;6f,;52,30f;72,;52,311;72,;55,30f;75,;55,311",
   "1:75,;53,326;73,;54,;74, 3:48,30c;68,",
   "7:41,307;61,;45,327;65,;d6,304;f6,;d5,;f5,;4f,307;6f,;22e,304;22f,;59,;79, 152:a8,301;391,",
   "2:395,;397,;399, 2:39f, 2:3a5,;3a9,;3ca, 1a:399,308;3a5,;3b1,301;3b5,;3b7,;3b9,;3cb,",
   "1a:3b9,308;3c5,;3bf,301;3c5,;3c9, 5:3d2,;,308 2c:415,300;,308 2:413,301 4:406,308",
   "5:41a,301;418,300;423,306 b:418, 20:438, 17:435,300;,308 2:433,301 4:456,308",
   "5:43a,301;438,300;443,306 18:474,30f;475, 4a:416,306;436, e:410,;430,;410,308;430,",
   "3:415,306;435, 3:4d8,308;4d9,;416,;436,;417,;437, 3:418,304;438,;418,308;438,;41e,;43e,",
   "3:4e8,;4e9,;42d,;44d,;423,304;443,;423,308;443,;423,30b;443,;427,308;447, 3:42b,;44b,",
   "129:627,653;,654;648,;627,655;64a,654 9a:6d5, 2:6c1, 11:6d2, 256:928,93c 8:930, 3:933,",
   "97:9c7,9be;,9d7 17c:b47,b56 3:,b3e;,b57 48:b92,bd7 36:bc6,bbe;bc7,;bc6,bd7 7c:c46,c56",
   "78:cbf,cd5 7:cc6,;,cd6 2:,cc2;cca,cd5 7f:d46,d3e;d47,;d46,d57 8e:dd9,dca",
   "2:,dcf;ddc,dca;dd9,ddf 248:1025,102e ae0:1b05,1b35 2:1b07, 2:1b09, 2:1b0b, 2:1b0d, 4:1b11,",
   "29:1b3a, 2:1b3c, 3:1b3e,;1b3f, 2:1b42,",
   "2bd:41,325;61,;42,307;62,;42,323;62,;42,331;62,;c7,301;e7,;44,307;64,;44,323;64,;44,331",
   "1:64,;44,327;64,;44,32d;64,;112,300;113,;112,301;113,;45,32d;65,;45,330",
   "1:65,;228,306;229,;46,307;66,;47,304;67,;48,307;68,;48,323;68,;48,308",
   "1:68,;48,327;68,;48,32e;68,;49,330;69,;cf,301;ef,;4b,;6b,;4b,323",
   "1:6b,;4b,331;6b,;4c,323;6c,;1e36,304;1e37,;4c,331;6c,;4c,32d;6c,;4d,301",
   "1:6d,;4d,307;6d,;4d,323;6d,;4e,307;6e,;4e,323;6e,;4e,331;6e,;4e,32d",
   "1:6e,;d5,301;f5,;d5,308;f5,;14c,300;14d,;14c,301;14d,;50,;70,;50,307",
   "1:70,;52,;72,;52,323;72,;1e5a,304;1e5b,;52,331;72,;53,307;73,;53,323",
   "1:73,;15a,307;15b,;160,;161,;1e62,;1e63,;54,;74,;54,323;74,",
   "1:54,331;74,;54,32d;74,;55,324;75,;55,330;75,;55,32d;75,;168,301;169,",
   "1:16a,308;16b,;56,303;76,;56,323;76,;57,300;77,;57,301;77,;57,308;77,",
   "1:57,307;77,;57,323;77,;58,307;78,;58,308;78,;59,307;79,;5a,302;7a,",
   "1:5a,323;7a,;5a,331;7a,;68,;74,308;77,30a;79, 2:17f,307",
   "5:41,323;61,;41,309;61,;c2,301;e2,;c2,300;e2,;c2,309;e2,;c2,303;e2,;1ea0,302;1ea1,",
   "1:102,301;103,;102,300;103,;102,309;103,;102,303;103,;1ea0,306;1ea1,;45,323",
   "1:65,;45,309;65,;45,303;65,;ca,301;ea,;ca,300;ea,;ca,309;ea,;ca,303",
   "1:ea,;1eb8,302;1eb9,;49,309;69,;49,323;69,;4f,;6f,;4f,309;6f,;d4,301",
   "1:f4,;d4,300;f4,;d4,309;f4,;d4,303;f4,;1ecc,302;1ecd,;1a0,301;1a1,",
   "1:1a0,300;1a1,;1a0,309;1a1,;1a0,303;1a1,;1a0,323;1a1,;55,;75,;55,309",
   "1:75,;1af,301;1b0,;1af,300;1b0,;1af,309;1b0,;1af,303;1b0,;1af,323;1b0,",
   "1:59,300;79,;59,323;79,;59,309;79,;59,303;79, 7:3b1,313;,314;1f00,300",
   "1:1f01,;1f00,301;1f01,;1f00,342;1f01,;391,313;,314;1f08,300;1f09,;1f08,301",
   "1:1f09,;1f08,342;1f09,;3b5,313;,314;1f10,300;1f11,;1f10,301;1f11,",
   "3:395,313;,314;1f18,300;1f19,;1f18,301;1f19, 3:3b7,313;,314;1f20,300;1f21,",
   "1:1f20,301;1f21,;1f20,342;1f21,;397,313;,314;1f28,300;1f29,;1f28,301;1f29,",
   "1:1f28,342;1f29,;3b9,313;,314;1f30,300;1f31,;1f30,301;1f31,;1f30,342;1f31,",
   "1:399,313;,314;1f38,300;1f39,;1f38,301;1f39,;1f38,342;1f39,;3bf,313;,314",
   "1:1f40,300;1f41,;1f40,301;1f41, 3:39f,313;,314;1f48,300;1f49,;1f48,301;1f49,",
   "3:3c5,313;,314;1f50,300;1f51,;1f50,301;1f51,;1f50,342;1f51, 2:3a5,314 2:1f59,300 2:,301",
   "2:,342;3c9,313;,314;1f60,300;1f61,",
   "1:1f60,301;1f61,;1f60,342;1f61,;3a9,313;,314;1f68,300;1f69,;1f68,301;1f69,",
   "1:1f68,342;1f69,;3b1,300 2:3b5, 2:3b7, 2:3b9, 2:3bf, 2:3c5, 2:3c9,",
   "4:1f00,345;1f01,;1f02,;1f03,;1f04,;1f05,;1f06,;1f07,",
   "1:1f08,;1f09,;1f0a,;1f0b,;1f0c,;1f0d,;1f0e,;1f0f,;1f20,;1f21,",
   "1:1f22,;1f23,;1f24,;1f25,;1f26,;1f27,;1f28,;1f29,;1f2a,;1f2b,",
   "1:1f2c,;1f2d,;1f2e,;1f2f,;1f60,;1f61,;1f62,;1f63,;1f64,;1f65,",
   "1:1f66,;1f67,;1f68,;1f69,;1f6a,;1f6b,;1f6c,;1f6d,;1f6e,;1f6f,",
   "1:3b1,306;,304;1f70,345;3b1,;3ac, 2:3b1,342;1fb6,345;391,306;,304;,300 2:,345",
   "5:a8,342;1f74,345;3b7,;3ae, 2:3b7,342;1fc6,345;395,300 2:397,",
   "2:,345;1fbf,300;,301;,342;3b9,306;,304;3ca,300 4:3b9,342;3ca,;399,306;,304;,300",
   "3:1ffe,;,301;,342;3c5,306;,304;3cb,300 2:3c1,313;,314;3c5,342;3cb,;3a5,306;,304;,300",
   "2:3a1,314;a8,300 5:1f7c,345;3c9,;3ce, 2:3c9,342;1ff6,345;39f,300 2:3a9, 2:,345",
   "19e:2190,338;2192, 13:2194, 1f:21d0,;21d4,;21d2, 35:2203, 5:2208, 3:220b, 18:2223, 2:2225,",
   "1b:223c, 3:2243, 3:2245, 2:2248, 17:3d, 2:2261, b:224d,;3c,;3e,;2264,;2265, 3:2272,;2273,",
   "3:2276,;2277, 7:227a,;227b, 3:2282,;2283, 3:2286,;2287, 23:22a2,;22a8,;22a9,;22ab,",
   "31:227c,;227d,;2291,;2292, 7:22b2,;22b3,;22b4,;22b5, d5f:304b,3099 2:304d, 2:304f, 2:3051,",
   "2:3053, 2:3055, 2:3057, 2:3059, 2:305b, 2:305d, 2:305f, 2:3061, 3:3064, 2:3066, 2:3068,",
   "7:306f,;,309a 2:3072,3099;,309a 2:3075,3099;,309a 2:3078,3099;,309a 2:307b,3099;,309a",
   "17:3046,3099 a:309d, e:30ab, 2:30ad, 2:30af, 2:30b1, 2:30b3, 2:30b5, 2:30b7, 2:30b9, 2:30bb,",
   "2:30bd, 2:30bf, 2:30c1, 3:30c4, 2:30c6, 2:30c8, 7:30cf,;,309a 2:30d2,3099;,309a",
   "2:30d5,3099;,309a 2:30d8,3099;,309a 2:30db,3099;,309a 17:30a6,3099 3:30ef,;30f0,;30f1,;30f2,",
   "4:30fd, df9c:11099,110ba 2:1109b, f:110a5, 83:11131,11127;11132, 21c:11347,1133e;,11357",
   "16f:114b9,114ba;,114b0 2:,114bd fc:115b8,115af;115b9, 37d:11935,11930"]

/-- The composed characters by the pair that they are composed of. -/
def compositions : PairTable :=
  .ofLines compositionLines

/-- The two characters of each composed character. -/
def compositionParts : MapTable :=
  .ofLines compositionLines

/-- A Hangul syllable as its two or three jamo. -/
def decomposeHangul (n : Nat) : List Char :=
  let i := n - 0xac00
  let lead := Char.ofNat (0x1100 + i / 588)
  let vowel := Char.ofNat (0x1161 + i % 588 / 28)
  if i % 28 = 0 then [lead, vowel] else [lead, vowel, Char.ofNat (0x11a7 + i % 28)]

/-- Decomposition of one character, in which composed characters are taken apart to a depth. -/
def decomposeTo : Nat → Char → List Char
  | 0, c => [c]
  | depth + 1, c =>
    if 0xac00 ≤ c.toNat ∧ c.toNat ≤ 0xd7a3 then decomposeHangul c.toNat
    else
      match compositionParts.apply c with
      | [_] => decompositionTable.apply c
      | cs => cs.flatMap (decomposeTo depth)

/-- Full decomposition of one character.  No character is composed more than three times over. -/
def decompose (c : Char) : List Char :=
  decomposeTo 4 c

/-- Puts a mark behind the marks before it whose class is not higher; the run is kept reversed. -/
def insertMark (m : Char × Nat) : List (Char × Nat) → List (Char × Nat)
  | [] => [m]
  | x :: xs => if m.2 < x.2 then x :: insertMark m xs else m :: x :: xs

/-- Orders every run of marks by class, keeping equal classes in order. -/
def orderMarks (run : List (Char × Nat)) : List Char → List Char
  | [] => run.reverse.map Prod.fst
  | c :: cs =>
    let k := markClasses.classOf c
    if k = 0 then run.reverse.map Prod.fst ++ c :: orderMarks [] cs
    else orderMarks (insertMark (c, k) run) cs

/-- The composition of two characters, if they have one. -/
def composePair? (a b : Char) : Option Char :=
  let x := a.toNat
  let y := b.toNat
  if 0x1100 ≤ x ∧ x < 0x1113 ∧ 0x1161 ≤ y ∧ y < 0x1176 then
    some (Char.ofNat (0xac00 + ((x - 0x1100) * 21 + (y - 0x1161)) * 28))
  else if 0xac00 ≤ x ∧ x ≤ 0xd7a3 ∧ (x - 0xac00) % 28 = 0 ∧ 0x11a7 < y ∧ y < 0x11c3 then
    some (Char.ofNat (x + (y - 0x11a7)))
  else compositions.find? a b

/-- Composes marks into the last starter.  `marks` holds, reversed, what follows that starter
uncomposed, and `last` the class of the newest of them (zero if there is none). -/
def composeFrom (starter : Char) (marks : List Char) (last : Nat) : List Char → List Char
  | [] => starter :: marks.reverse
  | c :: cs =>
    let k := markClasses.classOf c
    let blocked := !marks.isEmpty && k ≤ last
    match if blocked then none else composePair? starter c with
    | some s => composeFrom s marks last cs
    | none =>
      if k = 0 then starter :: marks.reverse ++ composeFrom c [] 0 cs
      else composeFrom starter (c :: marks) k cs

/-- Composes a decomposed and ordered text. -/
def compose : List Char → List Char
  | [] => []
  | c :: cs => if markClasses.classOf c = 0 then composeFrom c [] 0 cs else c :: compose cs

/-- The normal form of a name; plain ASCII is its own normal form. -/
def normalName (s : String) : String :=
  if s.toList.all (·.toNat < 128) then s
  else String.ofList (compose (orderMarks [] (s.toList.flatMap decompose)))

end RouteLens.Text
