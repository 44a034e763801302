import RouteLens.Proofs.Payload.Limit
import RouteLens.Proofs.Project.Reading

/-!
# How many classes a project declares

A file declares not many more classes than its text has characters, and its text has at most as many
characters as the file has bytes.  The size of a project is therefore a limit that suffices for
every walk over its classes, however much of it has been read.
-/

namespace RouteLens

variable {edition : Nat} [CharacterNames edition]

/-! ## Bytes, characters, classes -/

/-- Bytes spell at most as many characters. -/
theorem Utf8.length_decodeFrom_le {fuel start : Nat} {bytes : List UInt8} {done cs : List Char}
    (h : decodeFrom fuel start bytes done = .ok cs) : cs.length ≤ bytes.length + done.length := by
  induction fuel generalizing start bytes done with
  | zero =>
    cases h
    simp
  | succ fuel ih =>
    cases bytes with
    | nil =>
      cases h
      simp
    | cons b bs =>
      simp only [decodeFrom] at h
      split at h
      · cases h
      · split at h
        · have hle := ih h
          simp only [List.length_cons] at hle ⊢
          omega
        · split at h
          · have hle := ih h
            simp only [List.length_cons, List.length_drop] at hle ⊢
            omega
          · split at h <;> cases h

theorem Utf8.length_decode_le {bytes : List UInt8} {s : String} (h : decode bytes = .ok s) :
    s.length ≤ bytes.length := by
  unfold decode at h
  cases hcs : decodeFrom (bytes.length + 1) 0 bytes [] with
  | error f =>
    rw [hcs] at h
    cases h
  | ok cs =>
    rw [hcs] at h
    cases h
    simpa using length_decodeFrom_le hcs

namespace SourceUnit

theorem length_classes_of_ofBytes {path : Path} {bytes : List UInt8} {u : SourceUnit}
    (h : ofBytes path bytes = .ok u) : u.classes.length ≤ bytes.length + 16 := by
  unfold ofBytes at h
  split at h
  · cases h
  · rename_i text htext
    calc u.classes.length
        ≤ text.length + 16 := length_classes_of_ofText h
      _ ≤ bytes.length + 16 := Nat.add_le_add_right (Utf8.length_decode_le htext) 16

end SourceUnit

namespace Project

open PayloadRules

/-- The keys of all classes of a project. -/
def classKeys (d : Disk) (ls : Languages) (p : Project) : List (Path × Nat) :=
  (p.files.filterMap (p.unitOf d ls)).flatMap fun u => u.classes.map ClassDecl.key

variable {d : Disk} {ls : Languages} {p : Project}

theorem covers_classKeys : Covers (p.classKeys d ls).toFinset (p.declarations d ls) := by
  rintro c ⟨name, hc⟩
  obtain ⟨u, hu, hclass⟩ := List.mem_filterMap.1 (List.mem_of_head? hc)
  rw [List.mem_toFinset, classKeys]
  exact List.mem_flatMap.2 ⟨u, hu, List.mem_map_of_mem (List.mem_of_find?_eq_some hclass)⟩

theorem bytes_of_unitOn {path : Path} {u : SourceUnit} (h : unitOn d ls path = some u) :
    ∃ bytes, d.read? path = some bytes ∧ SourceUnit.ofBytes path bytes = .ok u := by
  unfold unitOn readUnit at h
  split at h
  · cases h
  · cases hbytes : d.read? path with
    | none => simp [hbytes, Except.toOption] at h
    | some bytes =>
      cases hu : SourceUnit.ofBytes path bytes with
      | error e => simp [hbytes, hu, Except.toOption] at h
      | ok v =>
        simp only [hbytes, hu, Except.toOption, Option.some.injEq] at h
        exact ⟨bytes, rfl, h ▸ hu⟩

/-- A file declares at most as many classes as its size allows. -/
theorem length_classes_le_sizeAt {path : Path} {u : SourceUnit}
    (h : p.unitOf d ls path = some u) : u.classes.length ≤ p.sizeAt d path := by
  unfold unitOf at h
  unfold sizeAt
  cases hlookup : p.units.lookup path with
  | some v =>
    simp only [hlookup] at h
    subst h
    exact Nat.le_refl _
  | none =>
    have hread : unitOn d ls path = some u := by
      simp only [hlookup] at h
      split at h
      · exact h
      · cases h
    obtain ⟨bytes, hbytes, hu⟩ := bytes_of_unitOn hread
    simpa [hbytes] using SourceUnit.length_classes_of_ofBytes hu

theorem length_classKeys_le : (p.classKeys d ls).length ≤ p.size d := by
  unfold classKeys size
  generalize p.files = files
  induction files with
  | nil => simp
  | cons path files ih =>
    rw [List.foldr_cons]
    cases hu : p.unitOf d ls path with
    | none =>
      rw [List.filterMap_cons_none hu]
      omega
    | some u =>
      rw [List.filterMap_cons_some hu, List.flatMap_cons, List.length_append, List.length_map]
      exact Nat.add_le_add (length_classes_le_sizeAt hu) ih

/-- The size of a project is a limit that suffices for its classes. -/
theorem suffices_size (d : Disk) (ls : Languages) (p : Project) :
    Suffices (p.declarations d ls) (p.size d) :=
  ⟨_, covers_classKeys, (List.toFinset_card_le _).trans length_classKeys_le⟩

end Project

end RouteLens
