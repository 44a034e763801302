import RouteLens.Grammar.Statement
import RouteLens.Source.Declaration

/-!
# Signatures as they are written

A tree keeps the parameters of a function by kind, and the defaults apart from them: those of the
positional parameters aligned to the right over two lists, those of the others one by one with gaps.
Nevertheless the parameters of a method are listed as the signature was written, every parameter
once, in order and with its own default (`MethodDecl.paramDecls_of_written`).

* `Grammar.Spells` says which entries some tokens spell: parameters, each with the default behind
  its `=`, and the marks between them.  Tokens spell one list of entries only (`Spells.unique`).
* `ParamDraft.add` is what the reader does with one entry (`exists_entry_of_go`); it puts the
  parameter of the entry at the end of those listed so far (`ParamDraft.listing_add`).
-/

namespace RouteLens

namespace Reader

variable {α β : Type} {s s' : ReadState}

theorem bind_eq_some {r : Reader α} {f : α → Reader β} {b : β} :
    (r >>= f) s = some (b, s') ↔ ∃ a t, r s = some (a, t) ∧ f a t = some (b, s') := by
  change (r s).bind (fun x => f x.1 x.2) = some (b, s') ↔ _
  rw [Option.bind_eq_some_iff, Prod.exists]

theorem pure_eq_some {a b : α} : (pure a : Reader α) s = some (b, s') ↔ a = b ∧ s = s' := by
  change some (a, s) = some (b, s') ↔ _
  rw [Option.some_inj, Prod.mk.injEq]

theorem guard_eq_some {p : Prop} [Decidable p] {u : Unit} :
    (guard p : Reader Unit) s = some (u, s') ↔ p ∧ s = s' := by
  change (if p then pure () else failure : Reader Unit) s = some (u, s') ↔ _
  split
  case isTrue h => simp [pure_eq_some, h]
  case isFalse h =>
    constructor
    · intro hnone
      cases hnone
    · intro hp
      exact absurd hp.1 h

theorem cond_eq_some {r : Reader Bool} {f g : Reader α} {x : α × ReadState} :
    (r >>= fun b => if b = true then f else g) s = some x ↔
      (∃ t, r s = some (true, t) ∧ f t = some x) ∨ ∃ t, r s = some (false, t) ∧ g t = some x := by
  obtain ⟨a, s'⟩ := x
  rw [bind_eq_some, Bool.exists_bool, or_comm]
  simp

theorem eq_of_peek {token : Token} (h : peek s = some (token, s')) : s' = s := by
  unfold peek at h
  split at h <;> cases h <;> rfl

theorem eq_of_atOp {symbol : String} {b : Bool} (h : atOp symbol s = some (b, s')) : s' = s := by
  obtain ⟨token, t, hpeek, h⟩ := bind_eq_some.1 h
  split at h <;> exact (pure_eq_some.1 h).2.symm.trans (eq_of_peek hpeek)

theorem eq_of_tryOp_false {symbol : String} (h : tryOp symbol s = some (false, s')) : s' = s := by
  obtain ⟨b, t, hat, h⟩ := bind_eq_some.1 h
  cases b with
  | true =>
    obtain ⟨l, u, -, h⟩ := bind_eq_some.1 h
    cases (pure_eq_some.1 h).1
  | false => rw [← (pure_eq_some.1 h).2, eq_of_atOp hat]

theorem op_of_tryOp {symbol : String} (h : tryOp symbol s = some (true, s')) :
    op symbol s = some ((), s') :=
  bind_eq_some.2 ⟨true, s', h, guard_eq_some.2 ⟨rfl, rfl⟩⟩

theorem tryOp_of_op {symbol : String} (h : op symbol s = some ((), s')) :
    tryOp symbol s = some (true, s') := by
  obtain ⟨b, t, htry, h⟩ := bind_eq_some.1 h
  obtain ⟨rfl, rfl⟩ := guard_eq_some.1 h
  exact htry

theorem peek_of_atOp {symbol : String} (h : atOp symbol s = some (true, s')) :
    peek s = some (.op symbol, s) := by
  obtain ⟨token, t, hpeek, hsame⟩ := bind_eq_some.1 h
  obtain rfl := eq_of_peek hpeek
  split at hsame
  · rw [hpeek, beq_iff_eq.1 (pure_eq_some.1 hsame).1]
  · cases (pure_eq_some.1 hsame).1

theorem peek_of_op {symbol : String} (h : op symbol s = some ((), s')) :
    peek s = some (.op symbol, s) := by
  obtain ⟨b, t, hat, h⟩ := bind_eq_some.1 (tryOp_of_op h)
  cases b with
  | true => exact peek_of_atOp hat
  | false => cases (pure_eq_some.1 h).1

theorem tryOp_of_peek {token : Token} {symbol : String} (h : peek s = some (token, s))
    (hother : token ≠ .op symbol) : tryOp symbol s = some (false, s) := by
  refine bind_eq_some.2 ⟨false, s, bind_eq_some.2 ⟨token, s, h, ?_⟩, rfl⟩
  split
  · rw [beq_eq_false_iff_ne.2 fun heq => hother (congrArg Token.op heq)]
    rfl
  · rfl

theorem peek_of_name {id : String} (h : name s = some (id, s')) :
    peek s = some (.name id, s) := by
  obtain ⟨l, t, htake, h⟩ := bind_eq_some.1 h
  split at h
  · obtain ⟨rfl, -⟩ := pure_eq_some.1 h
    unfold take at htake
    split at htake
    · cases htake
    · next hrest =>
      simp only [peek, hrest]
      split at htake <;> cases htake <;> rfl
  · cases h

end Reader

namespace Grammar

open Reader

/-- An entry of a signature: a parameter with its default, if it has one, or a mark. -/
inductive SignatureEntry where
  | param (p : Param) (value : Option Expr)
  | slash
  | star
  | vararg (p : Param)
  | kwarg (p : Param)

section Spelling

variable (typed : Bool) (close : String) (n : Nesting) (unpacked : Reader Expr)

/-- The entry that tokens spell, together with the comma behind it. -/
inductive SpellsEntry : ReadState → SignatureEntry → ReadState → Prop
  | plain {s t t' u : ReadState} {p : Param} (hparam : param typed false n unpacked s = some (p, t))
      (hbare : tryOp "=" t = some (false, t')) (hcomma : separator close t' = some ((), u)) :
      SpellsEntry s (.param p none) u
  | defaulted {s t t' t'' u : ReadState} {p : Param} {value : Expr}
      (hparam : param typed false n unpacked s = some (p, t)) (hequals : op "=" t = some ((), t'))
      (hvalue : n.expression t' = some (value, t'')) (hcomma : separator close t'' = some ((), u)) :
      SpellsEntry s (.param p (some value)) u
  | slash {s t u : ReadState} (hmark : op "/" s = some ((), t))
      (hcomma : separator close t = some ((), u)) : SpellsEntry s .slash u
  | star {s t u : ReadState} (hmark : op "*" s = some ((), t)) (hcomma : op "," t = some ((), u)) :
      SpellsEntry s .star u
  | vararg {s t t' u : ReadState} {p : Param} (hmark : op "*" s = some ((), t))
      (hparam : param typed true n unpacked t = some (p, t'))
      (hcomma : separator close t' = some ((), u)) : SpellsEntry s (.vararg p) u
  | kwarg {s t t' u : ReadState} {p : Param} {comma : Bool} (hmark : op "**" s = some ((), t))
      (hparam : param typed false n unpacked t = some (p, t'))
      (hcomma : tryOp "," t' = some (comma, u)) : SpellsEntry s (.kwarg p) u

/-- The entries that tokens spell one after the other, up to the closing token. -/
inductive Spells : ReadState → List SignatureEntry → ReadState → Prop
  | done {s s' : ReadState} (hclose : atOp close s = some (true, s')) : Spells s [] s'
  | next {s t s' : ReadState} {e : SignatureEntry} {entries : List SignatureEntry}
      (hentry : SpellsEntry typed close n unpacked s e t) (hrest : Spells t entries s') :
      Spells s (e :: entries) s'

/-- Reads one entry. -/
def entry : Reader SignatureEntry := do
  if ← tryOp "/" then
    separator close
    return .slash
  else if ← tryOp "**" then
    let p ← param typed false n unpacked
    let _ ← tryOp ","
    return .kwarg p
  else if ← tryOp "*" then
    if ← tryOp "," then return .star
    else
      let p ← param typed true n unpacked
      separator close
      return .vararg p
  else
    let p ← param typed false n unpacked
    if ← tryOp "=" then
      let value ← n.expression
      separator close
      return .param p (some value)
    else
      separator close
      return .param p none

end Spelling

section Determined

variable {typed : Bool} {close : String} {n : Nesting} {unpacked : Reader Expr} {s s' t : ReadState}
  {e : SignatureEntry} {entries : List SignatureEntry}

theorem exists_peek_of_param {starTyped : Bool} {p : Param}
    (h : param typed starTyped n unpacked s = some (p, t)) :
    ∃ id, peek s = some (.name id, s) := by
  obtain ⟨start, s₁, hhere, h⟩ := bind_eq_some.1 h
  obtain ⟨id, s₂, hname, -⟩ := bind_eq_some.1 h
  obtain rfl : s₁ = s := by
    unfold here at hhere
    split at hhere <;> cases hhere <;> rfl
  exact ⟨id, peek_of_name hname⟩

/-- What tokens spell is what is read from them. -/
theorem SpellsEntry.entry_eq (h : SpellsEntry typed close n unpacked s e t) :
    entry typed close n unpacked s = some (e, t) := by
  cases h with
  | slash hmark hcomma =>
    exact cond_eq_some.2 (.inl ⟨_, tryOp_of_op hmark, bind_eq_some.2 ⟨_, _, hcomma, rfl⟩⟩)
  | kwarg hmark hparam hcomma =>
    refine cond_eq_some.2 (.inr ⟨s, tryOp_of_peek (peek_of_op hmark) (by simp), ?_⟩)
    exact cond_eq_some.2 (.inl ⟨_, tryOp_of_op hmark,
      bind_eq_some.2 ⟨_, _, hparam, bind_eq_some.2 ⟨_, _, hcomma, rfl⟩⟩⟩)
  | star hmark hcomma =>
    refine cond_eq_some.2 (.inr ⟨s, tryOp_of_peek (peek_of_op hmark) (by simp), ?_⟩)
    refine cond_eq_some.2 (.inr ⟨s, tryOp_of_peek (peek_of_op hmark) (by simp), ?_⟩)
    refine cond_eq_some.2 (.inl ⟨_, tryOp_of_op hmark, ?_⟩)
    exact cond_eq_some.2 (.inl ⟨_, tryOp_of_op hcomma, rfl⟩)
  | vararg hmark hparam hcomma =>
    obtain ⟨id, hid⟩ := exists_peek_of_param hparam
    refine cond_eq_some.2 (.inr ⟨s, tryOp_of_peek (peek_of_op hmark) (by simp), ?_⟩)
    refine cond_eq_some.2 (.inr ⟨s, tryOp_of_peek (peek_of_op hmark) (by simp), ?_⟩)
    refine cond_eq_some.2 (.inl ⟨_, tryOp_of_op hmark, ?_⟩)
    exact cond_eq_some.2 (.inr ⟨_, tryOp_of_peek hid (by simp),
      bind_eq_some.2 ⟨_, _, hparam, bind_eq_some.2 ⟨_, _, hcomma, rfl⟩⟩⟩)
  | plain hparam hbare hcomma =>
    obtain ⟨id, hid⟩ := exists_peek_of_param hparam
    refine cond_eq_some.2 (.inr ⟨s, tryOp_of_peek hid (by simp), ?_⟩)
    refine cond_eq_some.2 (.inr ⟨s, tryOp_of_peek hid (by simp), ?_⟩)
    refine cond_eq_some.2 (.inr ⟨s, tryOp_of_peek hid (by simp), bind_eq_some.2 ⟨_, _, hparam, ?_⟩⟩)
    exact cond_eq_some.2 (.inr ⟨_, hbare, bind_eq_some.2 ⟨_, _, hcomma, rfl⟩⟩)
  | defaulted hparam hequals hvalue hcomma =>
    obtain ⟨id, hid⟩ := exists_peek_of_param hparam
    refine cond_eq_some.2 (.inr ⟨s, tryOp_of_peek hid (by simp), ?_⟩)
    refine cond_eq_some.2 (.inr ⟨s, tryOp_of_peek hid (by simp), ?_⟩)
    refine cond_eq_some.2 (.inr ⟨s, tryOp_of_peek hid (by simp), bind_eq_some.2 ⟨_, _, hparam, ?_⟩⟩)
    exact cond_eq_some.2 (.inl ⟨_, tryOp_of_op hequals,
      bind_eq_some.2 ⟨_, _, hvalue, bind_eq_some.2 ⟨_, _, hcomma, rfl⟩⟩⟩)

theorem SpellsEntry.not_atOp (h : SpellsEntry typed close n unpacked s e t)
    (hclose : close ∉ ["/", "**", "*"]) : atOp close s ≠ some (true, s') := by
  intro hat
  have hpeek := peek_of_atOp hat
  cases h with
  | slash hmark | kwarg hmark | star hmark | vararg hmark =>
    rw [peek_of_op hmark] at hpeek
    cases hpeek
    simp at hclose
  | plain hparam | defaulted hparam =>
    obtain ⟨id, hid⟩ := exists_peek_of_param hparam
    rw [hid] at hpeek
    cases hpeek

/-- Tokens spell one list of entries only, where the closing token is none that starts an entry. -/
theorem Spells.unique (hclose : close ∉ ["/", "**", "*"])
    (h : Spells typed close n unpacked s entries s') {entries' : List SignatureEntry}
    (h' : Spells typed close n unpacked s entries' t) : entries = entries' ∧ s' = t := by
  induction h generalizing entries' t with
  | done hat =>
    cases h' with
    | done hat' =>
      rw [hat] at hat'
      cases hat'
      exact ⟨rfl, rfl⟩
    | next hentry => exact absurd hat (hentry.not_atOp hclose)
  | next hentry hrest ih =>
    cases h' with
    | done hat => exact absurd hat (hentry.not_atOp hclose)
    | next hentry' hrest' =>
      cases hentry.entry_eq.symm.trans hentry'.entry_eq
      obtain ⟨rfl, rfl⟩ := ih hrest'
      exact ⟨rfl, rfl⟩

end Determined

namespace SignatureEntry

/-- Whether parameters are given by name from here on, after an entry. -/
def starred (before : Bool) : SignatureEntry → Bool
  | .star => true
  | .vararg _ => true
  | _ => before

/-- The parameter that an entry declares; a mark declares none. -/
def declares (starred : Bool) : SignatureEntry → List ParamDecl
  | .param p value => [⟨p.name, p.typeExpr, value, if starred then .keyword else .positional⟩]
  | .vararg p => [⟨p.name, p.typeExpr, none, .vararg⟩]
  | .kwarg p => [⟨p.name, p.typeExpr, none, .kwarg⟩]
  | .slash => []
  | .star => []

/-- The parameters that entries declare, in order.  Behind a star they are given by name. -/
def declared (starred : Bool) : List SignatureEntry → List ParamDecl
  | [] => []
  | e :: entries => e.declares starred ++ declared (e.starred starred) entries

end SignatureEntry

namespace ParamDraft

/-- The fields after one more entry. -/
def add (d : ParamDraft) : SignatureEntry → ParamDraft
  | .param p value =>
    if d.sawStar then { d with kwOnly := d.kwOnly ++ [p], kwDefaults := d.kwDefaults ++ [value] }
    else { d with args := d.args ++ [p], defaults := d.defaults ++ value.toList }
  | .slash => { d with posOnly := d.args, args := [], sawSlash := true }
  | .star => { d with sawStar := true }
  | .vararg p => { d with vararg := some p, sawStar := true }
  | .kwarg p => { d with kwarg := some p }

/-- What the grammar asks of the next entry. -/
def Allows (d : ParamDraft) : SignatureEntry → Prop
  | .param _ value => d.sawStar = false → value.isSome = true ∨ d.defaults = []
  | .slash => d.sawSlash = false ∧ d.sawStar = false
  | .star => d.sawStar = false
  | .vararg _ => d.sawStar = false
  | .kwarg _ => True

theorem sawStar_add (d : ParamDraft) (e : SignatureEntry) :
    (d.add e).sawStar = e.starred d.sawStar := by
  cases e with
  | param p value => simp only [add]; split <;> rfl
  | _ => rfl

/-- What the entries read so far say of the fields. -/
structure Ordered (d : ParamDraft) : Prop where
  posOnly : d.sawSlash = false → d.posOnly = []
  defaults : d.defaults.length ≤ (d.posOnly ++ d.args).length
  named : d.kwDefaults.length = d.kwOnly.length
  unstarred : d.sawStar = false → d.vararg = none ∧ d.kwOnly = []
  kwarg : d.kwarg = none

/-- The positional parameters with their defaults, which belong to the last ones. -/
def positionalDecls (ps : List Param) (defaults : List Expr) : List ParamDecl :=
  ps.zipWith (fun p value => ⟨p.name, p.typeExpr, value, .positional⟩)
    (Printer.alignDefaults ps.length defaults)

/-- The parameters in the order of a signature. -/
def listing (d : ParamDraft) : List ParamDecl :=
  positionalDecls (d.posOnly ++ d.args) d.defaults ++
    d.vararg.toList.map (fun p => ⟨p.name, p.typeExpr, none, .vararg⟩) ++
    d.kwOnly.zipWith (fun p value => ⟨p.name, p.typeExpr, value, .keyword⟩) d.kwDefaults ++
    d.kwarg.toList.map (fun p => ⟨p.name, p.typeExpr, none, .kwarg⟩)

/-- A positional parameter that is added gets its own default, the others keep theirs. -/
theorem positionalDecls_concat {ps : List Param} {defaults : List Expr} (p : Param)
    {value : Option Expr} (hlength : defaults.length ≤ ps.length)
    (hvalue : value.isSome = true ∨ defaults = []) :
    positionalDecls (ps ++ [p]) (defaults ++ value.toList) =
      positionalDecls ps defaults ++ [⟨p.name, p.typeExpr, value, .positional⟩] := by
  have halign : Printer.alignDefaults (ps ++ [p]).length (defaults ++ value.toList) =
      Printer.alignDefaults ps.length defaults ++ [value] := by
    unfold Printer.alignDefaults
    cases value with
    | some v => simp
    | none =>
      obtain rfl : defaults = [] := by simpa using hvalue
      simp [List.replicate_succ']
  have hsame : ps.length = (Printer.alignDefaults ps.length defaults).length := by
    simp [Printer.alignDefaults]
    omega
  rw [positionalDecls, halign, List.zipWith_append hsame]
  rfl

/-- An entry puts its parameter at the end of those listed so far. -/
theorem listing_add {d : ParamDraft} (hd : d.Ordered) {e : SignatureEntry} (he : d.Allows e) :
    (d.add e).listing = d.listing ++ e.declares d.sawStar := by
  cases e with
  | param p value =>
    cases hstar : d.sawStar with
    | true =>
      simp [add, hstar, listing, SignatureEntry.declares, hd.kwarg,
        List.zipWith_append hd.named.symm]
    | false =>
      obtain ⟨hvararg, hnamed⟩ := hd.unstarred hstar
      simp [add, hstar, listing, SignatureEntry.declares, hd.kwarg, hvararg, hnamed,
        ← List.append_assoc, positionalDecls_concat p hd.defaults (he hstar)]
  | slash => simp [add, listing, SignatureEntry.declares, hd.posOnly he.1]
  | star => simp [add, listing, SignatureEntry.declares]
  | vararg p =>
    obtain ⟨hvararg, hnamed⟩ := hd.unstarred he
    simp [add, listing, SignatureEntry.declares, hd.kwarg, hvararg, hnamed]
  | kwarg p => simp [add, listing, SignatureEntry.declares, hd.kwarg]

/-- An allowed entry keeps the fields in order. -/
theorem ordered_add {d : ParamDraft} (hd : d.Ordered) {e : SignatureEntry} (he : d.Allows e)
    (hlast : ∀ p, e ≠ .kwarg p) : (d.add e).Ordered := by
  obtain ⟨hposOnly, hdefaults, hnamed, hunstarred, hkwarg⟩ := hd
  cases e with
  | param p value =>
    cases hstar : d.sawStar with
    | true =>
      simp only [add, hstar, if_true]
      exact ⟨hposOnly, hdefaults, by simp [hnamed], by simp, hkwarg⟩
    | false =>
      simp only [add, hstar, if_false, Bool.false_eq_true]
      refine ⟨hposOnly, ?_, hnamed, fun _ => hunstarred hstar, hkwarg⟩
      have hvalue : value.toList.length ≤ 1 := by cases value <;> simp
      simp only [List.length_append, List.length_singleton] at hdefaults ⊢
      omega
  | slash =>
    rw [hposOnly he.1] at hdefaults
    exact ⟨by simp [add], by simpa [add] using hdefaults, hnamed, hunstarred, hkwarg⟩
  | star => exact ⟨hposOnly, hdefaults, hnamed, by simp [add], hkwarg⟩
  | vararg p => exact ⟨hposOnly, hdefaults, hnamed, by simp [add], hkwarg⟩
  | kwarg p => exact absurd rfl (hlast p)

theorem ordered_empty : ({} : ParamDraft).Ordered :=
  ⟨by simp, by simp, rfl, by simp, rfl⟩

end ParamDraft

section Reading

variable {typed : Bool} {close : String} {n : Nesting} {unpacked : Reader Expr}
  {d d' : ParamDraft} {fuel : Nat} {s s' : ReadState}

/-- With a default or without, the comma comes next and the parameter is added. -/
theorem exists_add_of_addParam {p : Param} {value : Option Expr}
    (h : (do
      separator close
      if d.sawStar then
        params.go typed close n unpacked { d with
          kwOnly := d.kwOnly ++ [p], kwDefaults := d.kwDefaults ++ [value] } fuel
      else
        guard (value.isSome || d.defaults.isEmpty)
        params.go typed close n unpacked { d with
          args := d.args ++ [p], defaults := d.defaults ++ value.toList } fuel :
        Reader ParamDraft) s = some (d', s')) :
    ∃ t, separator close s = some ((), t) ∧ d.Allows (.param p value) ∧
      params.go typed close n unpacked (d.add (.param p value)) fuel t = some (d', s') := by
  obtain ⟨_, t, hcomma, h⟩ := bind_eq_some.1 h
  refine ⟨t, hcomma, ?_⟩
  by_cases hstar : d.sawStar = true
  · rw [if_pos hstar] at h
    exact ⟨by simp [ParamDraft.Allows, hstar], by simpa [ParamDraft.add, hstar] using h⟩
  · rw [if_neg hstar] at h
    obtain ⟨_, u, hguard, h⟩ := bind_eq_some.1 h
    obtain ⟨hallowed, rfl⟩ := guard_eq_some.1 hguard
    exact ⟨by simpa [ParamDraft.Allows, hstar] using hallowed,
      by simpa [ParamDraft.add, hstar] using h⟩

/-- The reader stops at the closing token, or reads an entry that is allowed and goes on, unless it
was the last one by its kind. -/
theorem exists_entry_of_go (h : params.go typed close n unpacked d (fuel + 1) s = some (d', s')) :
    (atOp close s = some (true, s') ∧ d' = d) ∨
      ∃ e t, SpellsEntry typed close n unpacked s e t ∧ d.Allows e ∧
        ((∀ p, e ≠ .kwarg p) ∧ params.go typed close n unpacked (d.add e) fuel t = some (d', s') ∨
          atOp close t = some (true, s') ∧ d' = d.add e) := by
  replace h := cond_eq_some.1 h
  rcases h with ⟨t, hclose, h⟩ | ⟨t, hclose, h⟩ <;> obtain rfl := eq_of_atOp hclose
  · obtain ⟨rfl, rfl⟩ := pure_eq_some.1 h
    exact .inl ⟨hclose, rfl⟩
  refine .inr ?_
  rw [cond_eq_some] at h
  rcases h with ⟨t₁, hslash, h⟩ | ⟨t₁, hslash, h⟩
  · rw [bind_eq_some] at h
    obtain ⟨_, t₂, hguard, h⟩ := h
    obtain ⟨hallowed, rfl⟩ := guard_eq_some.1 hguard
    rw [bind_eq_some] at h
    obtain ⟨_, u, hcomma, h⟩ := h
    simp only [Bool.and_eq_true, Bool.not_eq_true'] at hallowed
    exact ⟨.slash, u, .slash (op_of_tryOp hslash) hcomma, hallowed.1, .inl ⟨by simp, h⟩⟩
  obtain rfl := eq_of_tryOp_false hslash
  rw [cond_eq_some] at h
  rcases h with ⟨t₁, hdouble, h⟩ | ⟨t₁, hdouble, h⟩
  · rw [bind_eq_some] at h
    obtain ⟨p, t₂, hparam, h⟩ := h
    rw [bind_eq_some] at h
    obtain ⟨comma, u, hcomma, h⟩ := h
    rw [bind_eq_some] at h
    obtain ⟨closed, u', hclose', h⟩ := h
    rw [bind_eq_some] at h
    obtain ⟨_, v, hguard, h⟩ := h
    obtain ⟨rfl, rfl⟩ := guard_eq_some.1 hguard
    obtain ⟨rfl, rfl⟩ := pure_eq_some.1 h
    exact ⟨.kwarg p, u, .kwarg (op_of_tryOp hdouble) hparam hcomma, trivial, .inr ⟨hclose', rfl⟩⟩
  obtain rfl := eq_of_tryOp_false hdouble
  rw [cond_eq_some] at h
  rcases h with ⟨t₁, hstar, h⟩ | ⟨t₁, hstar, h⟩
  · rw [bind_eq_some] at h
    obtain ⟨_, t₂, hguard, h⟩ := h
    obtain ⟨hallowed, rfl⟩ := guard_eq_some.1 hguard
    rw [Bool.not_eq_true'] at hallowed
    rw [cond_eq_some] at h
    rcases h with ⟨u, hcomma, h⟩ | ⟨u, hcomma, h⟩
    · rw [bind_eq_some] at h
      obtain ⟨token, u', hpeek, h⟩ := h
      rw [bind_eq_some] at h
      obtain ⟨_, v, hguard, h⟩ := h
      obtain ⟨-, rfl⟩ := guard_eq_some.1 hguard
      obtain rfl := eq_of_peek hpeek
      exact ⟨.star, _, .star (op_of_tryOp hstar) (op_of_tryOp hcomma), hallowed, .inl ⟨by simp, h⟩⟩
    · obtain rfl := eq_of_tryOp_false hcomma
      rw [bind_eq_some] at h
      obtain ⟨p, t₂, hparam, h⟩ := h
      rw [bind_eq_some] at h
      obtain ⟨_, v, hcomma, h⟩ := h
      exact ⟨.vararg p, v, .vararg (op_of_tryOp hstar) hparam hcomma, hallowed, .inl ⟨by simp, h⟩⟩
  obtain rfl := eq_of_tryOp_false hstar
  rw [bind_eq_some] at h
  obtain ⟨p, t₁, hparam, h⟩ := h
  rw [cond_eq_some] at h
  rcases h with ⟨t₂, hequals, h⟩ | ⟨t₂, hequals, h⟩
  · rw [bind_eq_some] at h
    obtain ⟨value, t₃, hvalue, h⟩ := h
    obtain ⟨u, hcomma, hallowed, h⟩ := exists_add_of_addParam h
    exact ⟨.param p (some value), u, .defaulted hparam (op_of_tryOp hequals) hvalue hcomma,
      hallowed, .inl ⟨by simp, h⟩⟩
  · obtain ⟨u, hcomma, hallowed, h⟩ := exists_add_of_addParam h
    exact ⟨.param p none, u, .plain hparam hequals hcomma, hallowed, .inl ⟨by simp, h⟩⟩

/-- What the reader adds to the fields are the entries that the tokens spell, in order. -/
theorem exists_spells_of_go (h : params.go typed close n unpacked d fuel s = some (d', s'))
    (hd : d.Ordered) :
    ∃ entries, Spells typed close n unpacked s entries s' ∧
      d'.listing = d.listing ++ SignatureEntry.declared d.sawStar entries := by
  induction fuel generalizing d s with
  | zero => cases h
  | succ fuel ih =>
    rcases exists_entry_of_go h with ⟨hclose, rfl⟩ | ⟨e, t, he, hallowed, hmore | hend⟩
    · exact ⟨[], .done hclose, by simp [SignatureEntry.declared]⟩
    · obtain ⟨hlast, hgo⟩ := hmore
      obtain ⟨entries, hentries, hlisting⟩ := ih hgo (ParamDraft.ordered_add hd hallowed hlast)
      refine ⟨e :: entries, .next he hentries, ?_⟩
      rw [hlisting, ParamDraft.listing_add hd hallowed, ParamDraft.sawStar_add, List.append_assoc]
      rfl
    · obtain ⟨hclose, rfl⟩ := hend
      refine ⟨[e], .next he (.done hclose), ?_⟩
      rw [ParamDraft.listing_add hd hallowed]
      simp [SignatureEntry.declared]

end Reading

end Grammar

namespace MethodDecl

open Grammar

theorem allParams_of_toParams {m : MethodDecl} {d : ParamDraft} (h : d.toParams = m.params) :
    m.allParams = d.listing := by
  rw [allParams, ← h]
  rfl

/-- The positional parameters come first. -/
theorem exists_allParams (m : MethodDecl) :
    ∃ defaults rest, m.allParams = ParamDraft.positionalDecls m.params.positional defaults ++ rest ∧
      ∀ p ∈ rest, p.kind ≠ .positional := by
  cases hparams : m.params with
  | mk posOnly args vararg kwOnly kwDefaults kwarg defaults =>
    simp only [allParams, hparams, List.append_assoc]
    refine ⟨defaults, _, rfl, fun p hp => ?_⟩
    simp only [List.mem_append, List.mem_map, ← List.map_uncurry_zip_eq_zipWith] at hp
    rcases hp with ⟨_, -, rfl⟩ | ⟨_, -, rfl⟩ | ⟨_, -, rfl⟩ <;> exact ParamKind.noConfusion

theorem exists_positionalDecls_cons (p : Param) (ps : List Param) (defaults : List Expr) :
    ∃ value decls, ParamDraft.positionalDecls (p :: ps) defaults =
      ⟨p.name, p.typeExpr, value, .positional⟩ :: decls := by
  obtain ⟨value, values, hvalues⟩ : ∃ value values,
      Printer.alignDefaults (p :: ps).length defaults = value :: values := by
    refine List.exists_cons_of_length_pos ?_
    simp only [Printer.alignDefaults, List.length_append, List.length_replicate, List.length_map,
      List.length_cons]
    omega
  exact ⟨value, _, by rw [ParamDraft.positionalDecls, hvalues, List.zipWith_cons_cons]⟩

/-- The instance or class that a method leaves out is its first positional parameter, if it has
one. -/
theorem paramDecls_eq_eraseP (m : MethodDecl) :
    m.paramDecls =
      if m.isStatic then m.allParams else m.allParams.eraseP (·.kind = .positional) := by
  obtain ⟨defaults, rest, hall, hrest⟩ := m.exists_allParams
  rw [paramDecls, hall]
  cases m.isStatic with
  | true => simp
  | false =>
    cases m.params.positional with
    | nil => simpa [ParamDraft.positionalDecls] using (List.eraseP_of_forall_not (by simpa)).symm
    | cons p ps =>
      obtain ⟨value, decls, hdecls⟩ := exists_positionalDecls_cons p ps defaults
      simp [hdecls]

/-- The parameters of a method are those of the signature that was read for it, each one once, in
order, with its kind, its type and its own default; only the first positional one is left out, if
there is one and the method is not static. -/
theorem paramDecls_of_written (m : MethodDecl) {n : Nesting} {unpacked : Reader Expr}
    {s s' : ReadState} (h : Grammar.params true ")" n unpacked s = some (m.params, s')) :
    ∃ entries, Spells true ")" n unpacked s entries s' ∧
      m.paramDecls =
        let declared := SignatureEntry.declared false entries
        if m.isStatic then declared else declared.eraseP (·.kind = .positional) := by
  obtain ⟨d, t, hgo, hpure⟩ := Reader.bind_eq_some.1 h
  obtain ⟨hparams, rfl⟩ := Reader.pure_eq_some.1 hpure
  obtain ⟨entries, hentries, hlisting⟩ := exists_spells_of_go hgo ParamDraft.ordered_empty
  refine ⟨entries, hentries, ?_⟩
  rw [paramDecls_eq_eraseP, allParams_of_toParams hparams, hlisting]
  rfl

/-- Parameters of every kind, with and without a default. -/
theorem paramDecls_of_written_everyKind :
    ∃ (m : MethodDecl) (s s' : ReadState),
      Grammar.params true ")" (nesting 60) (starExpr (nesting 60) (bitwiseOr (nesting 60))) s =
          some (m.params, s') ∧
        m.paramDecls.map (·.text) = ["x", "y: int = 1", "rest", "a", "b = 2", "named"] ∧
        ∃ entries,
          Spells true ")" (nesting 60) (starExpr (nesting 60) (bitwiseOr (nesting 60))) s entries
              s' ∧
            m.paramDecls =
              (SignatureEntry.declared false entries).eraseP (·.kind = .positional) := by
  let u : SourceUnit := ⟨⟨"/", []⟩, "", []⟩
  let c : ClassDecl := ⟨u, 0, .node default .pass, "C", [], [], [], []⟩
  let methodOf (ps : Params) : MethodDecl := ⟨c, .node default .pass, false, "m", ps, [], [], none⟩
  let s : ReadState :=
    ⟨((Token.scan "(self, x, /, y: int = 1, *rest, a, b = 2, **named)\n".toList).getD []).drop 1,
      default⟩
  let r := Grammar.params true ")" (nesting 60) (starExpr (nesting 60) (bitwiseOr (nesting 60))) s
  have hr : r.any (fun x => (methodOf x.1).paramDecls.map (·.text) =
      ["x", "y: int = 1", "rest", "a", "b = 2", "named"]) = true := by
    decide +kernel
  obtain ⟨⟨ps, s'⟩, hps, htexts⟩ := (Option.any_eq_true _ _).1 hr
  refine ⟨methodOf ps, s, s', hps, of_decide_eq_true htexts, ?_⟩
  exact paramDecls_of_written (methodOf ps) hps

end MethodDecl

end RouteLens
