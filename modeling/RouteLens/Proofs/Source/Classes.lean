import Mathlib.Data.Option.Basic
import RouteLens.Source.Reading

/-!
# The classes of a file

A class of a file is what the statement at its place declares, so that the place tells it from all
other classes of the file (`SourceUnit.eq_of_number_eq`).  A line of simple statements declares no
class, and any other statement one at most.  Statements are read in as many rounds as a text has
characters, and a few more, so a file has not many more classes than characters
(`length_classes_of_ofText`).
-/

namespace RouteLens

variable {edition : Nat} [CharacterNames edition]

namespace SourceUnit

variable {u : SourceUnit} {c c' : ClassDecl} {i : Nat} {s : Stmt}

theorem classAt?_eq_some (h : u.classAt? i s = some c) : c.unit = u ∧ c.number = i ∧ c.stmt = s ∧
    ∃ span, s = .node span (.classDef c.name c.bases c.keywords c.body c.decorators) := by
  unfold classAt? at h
  split at h
  · cases h
    exact ⟨rfl, rfl, rfl, _, rfl⟩
  · cases h

theorem mem_classes_iff :
    c ∈ u.classes ↔ u.body[c.number]? = some c.stmt ∧ u.classAt? c.number c.stmt = some c := by
  unfold classes
  rw [List.mem_filterMap]
  constructor
  · rintro ⟨⟨s, i⟩, hmem, hc⟩
    obtain ⟨-, rfl, rfl, -⟩ := classAt?_eq_some hc
    exact ⟨List.mem_zipIdx_iff_getElem?.1 hmem, hc⟩
  · rintro ⟨hmem, hc⟩
    exact ⟨(c.stmt, c.number), List.mem_zipIdx_iff_getElem?.2 hmem, hc⟩

theorem unit_of_mem_classes (h : c ∈ u.classes) : c.unit = u :=
  (classAt?_eq_some (mem_classes_iff.1 h).2).1

/-- The place of a class tells it from the other classes of its file. -/
theorem eq_of_number_eq (hc : c ∈ u.classes) (hc' : c' ∈ u.classes)
    (h : c.number = c'.number) : c = c' := by
  obtain ⟨hs, hc⟩ := mem_classes_iff.1 hc
  obtain ⟨hs', hc'⟩ := mem_classes_iff.1 hc'
  rw [h] at hs hc
  rw [Option.some.inj (hs.symm.trans hs')] at hc
  exact Option.some.inj (hc.symm.trans hc')

end SourceUnit

/-! ## How many there are -/

namespace Reader

variable {α β : Type} {P : α → Prop} {Q : β → Prop}

/-- Whatever a reader reads has a property. -/
def Makes (P : α → Prop) (r : Reader α) : Prop :=
  ∀ s a s', r s = some (a, s') → P a

theorem makes_failure : Makes P failure :=
  fun _ _ _ h => nomatch h

theorem makes_pure {a : α} (h : P a) : Makes P (pure a) := by
  intro s b s' hrun
  cases hrun
  exact h

theorem Makes.mono {R : α → Prop} {r : Reader α} (h : Makes P r) (hPR : ∀ a, P a → R a) :
    Makes R r :=
  fun s a s' hrun => hPR a (h s a s' hrun)

theorem Makes.bind {r : Reader α} {f : α → Reader β} (hr : Makes P r)
    (hf : ∀ a, P a → Makes Q (f a)) : Makes Q (r >>= f) := by
  intro s b s' h
  obtain ⟨⟨a, t⟩, ha, hb⟩ := Option.bind_eq_some_iff.1 h
  exact hf a (hr s a t ha) t b s' hb

theorem makes_after {r : Reader α} {f : α → Reader β} (hf : ∀ a, Makes Q (f a)) :
    Makes Q (r >>= f) :=
  Makes.bind (P := fun _ => True) (fun _ _ _ _ => trivial) fun a _ => hf a

/-- A reader that is run again and again gives fewer results than there are rounds. -/
theorem makes_collect {r : Reader (Option α)} (h : Makes (fun o => ∀ a ∈ o, P a) r) (fuel : Nat) :
    Makes (fun as => as.length < fuel ∧ ∀ a ∈ as, P a) (collect r fuel) := by
  induction fuel with
  | zero => exact makes_failure
  | succ fuel ih =>
    refine h.bind fun o ho => ?_
    cases o with
    | none => exact makes_pure (by simp)
    | some a => exact ih.bind fun as has => makes_pure (by simp_all)

end Reader

namespace Grammar

open Reader

/-- Whether a statement declares a class. -/
def declaresClass : Stmt → Bool
  | .node _ (.classDef ..) => true
  | _ => false

theorem makes_stmtFrom {start : Position} {form : StmtForm}
    (h : ∀ span, declaresClass (.node span form) = false) :
    Makes (declaresClass · = false) (stmtFrom start form) :=
  makes_after fun span => makes_pure (h span)

section

variable (n : Nesting)

theorem makes_exprStmt : Makes (declaresClass · = false) (exprStmt n) := by
  unfold exprStmt
  repeat' first
    | exact makes_stmtFrom fun _ => rfl
    | refine makes_after fun _ => ?_
    | split

theorem makes_importFrom : Makes (declaresClass · = false) (importFrom n) := by
  unfold importFrom
  repeat' first
    | exact makes_stmtFrom fun _ => rfl
    | refine makes_after fun _ => ?_
    | split

theorem makes_simpleStmt : Makes (declaresClass · = false) (simpleStmt n) := by
  unfold simpleStmt
  repeat' first
    | exact makes_stmtFrom fun _ => rfl
    | exact makes_exprStmt n
    | exact makes_importFrom n
    | refine makes_after fun _ => ?_
    | split

theorem makes_simpleStmts (fuel : Nat) :
    Makes (fun ss => ss.countP declaresClass = 0) (simpleStmts n fuel) := by
  induction fuel with
  | zero => exact makes_failure
  | succ fuel ih =>
    refine (makes_simpleStmt n).bind fun s hs => ?_
    have hline : [s].countP declaresClass = 0 := by simp [hs]
    refine makes_after fun more => ?_
    split
    · refine makes_after fun t => ?_
      split
      · exact makes_after fun _ => makes_pure hline
      · exact ih.bind fun ss hss => makes_pure (by simp_all)
    · exact makes_after fun _ => makes_pure hline

variable (block : Reader (List Stmt))

/-- A statement with a block declares one class at most, and a line of statements none. -/
theorem makes_statement : Makes (fun ss => ss.countP declaresClass ≤ 1) (statement n block) := by
  have hone {r : Reader Stmt} : Makes (fun ss => ss.countP declaresClass ≤ 1) (do return [← r]) :=
    makes_after fun s => makes_pure (List.countP_le_length ..)
  unfold statement
  repeat' first
    | exact hone
    | exact makes_failure
    | exact makes_pure (List.countP_le_length ..)
    | exact (makes_simpleStmts n n.fuel).mono fun _ hss => hss ▸ Nat.zero_le 1
    | refine makes_after fun _ => ?_
    | split

theorem countP_flatten_le {α : Type} {p : α → Bool} {groups : List (List α)}
    (h : ∀ g ∈ groups, g.countP p ≤ 1) : groups.flatten.countP p ≤ groups.length := by
  induction groups with
  | nil => simp
  | cons g gs ih =>
    have hg := h g List.mem_cons_self
    have hgs := ih fun g' hg' => h g' (List.mem_cons_of_mem g hg')
    rw [List.flatten_cons, List.countP_append, List.length_cons]
    omega

/-- Statements declare fewer classes than there are rounds to read them. -/
theorem makes_statements :
    Makes (fun ss => ss.countP declaresClass < n.fuel) (statements n block) := by
  refine (makes_collect (P := fun ss => ss.countP declaresClass ≤ 1) ?_ n.fuel).bind
    fun groups hgroups => makes_pure ?_
  · refine makes_after fun t => ?_
    split
    · exact makes_pure (by simp)
    · exact makes_pure (by simp)
    · exact (makes_statement n block).bind fun ss hss => makes_pure (by simpa using hss)
  · calc groups.flatten.countP declaresClass
        ≤ groups.length := countP_flatten_le hgroups.2
      _ < n.fuel := hgroups.1

theorem makes_file : Makes (fun ss => ss.countP declaresClass < n.fuel) (file n) := by
  refine (makes_statements n _).bind fun body hbody => makes_after fun t => ?_
  split
  · exact makes_pure hbody
  · exact makes_failure

end

end Grammar

open Grammar (declaresClass)

theorem length_endLine_le (cs : List Char) : (endLine cs).length ≤ cs.length + 1 := by
  unfold endLine
  split <;> simp

/-- The length of a text bounds the number of classes that it declares. -/
theorem countP_of_readSource {text : String} {body : List Stmt} (h : readSource text = .ok body) :
    body.countP declaresClass ≤ text.length + 16 := by
  unfold readSource readWith at h
  split at h
  · cases h
  · split at h
    · cases h
    · split at h
      · rename_i hrun
        cases h
        have hfile := Grammar.makes_file _ _ _ _ hrun
        have hend := length_endLine_le (unifyLineEnds text.toList)
        have hunify := length_unifyLineEnds_le text.toList
        rw [String.length_toList] at hunify
        simp only [Grammar.nesting] at hfile
        omega
      · cases h

namespace SourceUnit

theorem length_classes (u : SourceUnit) : u.classes.length = u.body.countP declaresClass := by
  unfold classes
  generalize 0 = i
  induction u.body generalizing i with
  | nil => rfl
  | cons s ss ih =>
    have hclass : (u.classAt? i s).isSome = declaresClass s := by
      obtain ⟨span, form⟩ := s
      cases form <;> rfl
    rw [List.zipIdx_cons, List.filterMap_cons, List.countP_cons, ← ih (i + 1), ← hclass]
    cases u.classAt? i s <;> rfl

/-- A file has not many more classes than characters. -/
theorem length_classes_of_ofText {path : Path} {text : String} {u : SourceUnit}
    (h : ofText path text = .ok u) : u.classes.length ≤ text.length + 16 := by
  unfold ofText at h
  simp only at h
  split at h
  · rename_i body hbody
    cases h
    have hunify := length_unifyLineEnds_le text.toList
    have hcount := countP_of_readSource hbody
    rw [String.length_ofList] at hcount
    rw [String.length_toList] at hunify
    rw [length_classes]
    simp only
    omega
  · cases h
  · cases h

end SourceUnit

end RouteLens
