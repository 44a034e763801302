import RouteLens.Token.Lexer

/-!
# The weight of quoted literals

A quoted literal takes up its body and at least two quotes.  The literals of a text stand side by
side in it, so that together they are no longer than the text (`textWeight_scanFrom_le`): what the
lexer has taken and what it has left never grow.
-/

namespace RouteLens

/-- How many characters of the text a quoted literal takes up at least. -/
def Token.weight : Token → Nat
  | .text piece => piece.body.length + 2
  | _ => 0

/-- The weight of the quoted literals among some tokens. -/
def textWeight : List Lexeme → Nat
  | [] => 0
  | l :: ls => l.token.weight + textWeight ls

@[simp] theorem textWeight_append (ls ls' : List Lexeme) :
    textWeight (ls ++ ls') = textWeight ls + textWeight ls' := by
  induction ls with
  | nil => simp [textWeight]
  | cons l ls ih =>
    rw [List.cons_append, textWeight, textWeight, ih]
    omega

namespace Cursor

theorem rest_next (k : Cursor) : k.next.rest = k.rest.drop 1 := by
  unfold next
  split
  · rename_i h
    simp [h]
  · rename_i h
    simp [h]

theorem rest_skip (k : Cursor) (n : Nat) : (k.skip n).rest = k.rest.drop n := by
  induction n with
  | zero => rfl
  | succ n ih => rw [skip, rest_next, ih, List.drop_drop]

theorem length_rest_skip (k : Cursor) (n : Nat) :
    (k.skip n).rest.length = k.rest.length - n := by
  rw [rest_skip, List.length_drop]

theorem length_rest_moveTo_le (k : Cursor) (rest : List Char) :
    (k.moveTo rest).rest.length ≤ k.rest.length := by
  rw [moveTo, length_rest_skip]
  omega

end Cursor

namespace LexState

/-- The weight of the tokens read so far. -/
def weight (s : LexState) : Nat :=
  textWeight s.tokens.toList

theorem weight_emit (s : LexState) (token : Token) (start stop : Position) :
    (s.emit token start stop).weight = s.weight + token.weight := by
  simp [weight, emit, textWeight]

end LexState

namespace Lexer

/-! ## Indentation -/

theorem length_lineIndent_le {fixed : Option Nat} {i i' : Indent} {pos : Position}
    {cs : List Char} {k : Cursor} (h : lineIndent fixed i pos cs = some (i', k)) :
    k.rest.length ≤ cs.length := by
  fun_induction lineIndent fixed i pos cs with
  | case1 fixed i pos cs ih => exact Nat.le_succ_of_le (ih h)
  | case2 fixed i pos cs ih => exact Nat.le_succ_of_le (ih h)
  | case3 fixed i pos cs ih => exact Nat.le_succ_of_le (ih h)
  | case4 fixed i pos c cs _ ih => exact Nat.le_succ_of_le (Nat.le_succ_of_le (ih h))
  | case5 => cases h
  | case6 fixed i pos cs =>
    simp only [Option.some.injEq, Prod.mk.injEq] at h
    obtain ⟨-, rfl⟩ := h
    exact Nat.le_refl _

theorem textWeight_closeIndents (wide : Nat) (pos : Position) (indents : List Indent)
    (tokens : Array Lexeme) :
    textWeight (closeIndents wide pos indents tokens).2.toList = textWeight tokens.toList := by
  fun_induction closeIndents wide pos indents tokens with
  | case1 tokens i j rest _ ih => simpa [textWeight, Token.weight] using ih
  | case2 => rfl
  | case3 => rfl

/-- Indentation has no weight. -/
theorem weight_indentLine {s s' : LexState} {i : Indent} {pos : Position}
    (h : indentLine s i pos = some s') : s'.weight = s.weight := by
  unfold indentLine at h
  have hclose := textWeight_closeIndents i.wide pos s.indents s.tokens
  split at h
  · cases h
  · rename_i top _ _
    by_cases hsame : i.wide = top.wide
    · simp only [if_pos hsame, Option.ite_none_right_eq_some] at h
      rw [← Option.some.inj h.2]
    · rw [if_neg hsame] at h
      by_cases hdeeper : top.wide < i.wide
      · simp only [if_pos hdeeper, Option.ite_none_left_eq_some] at h
        rw [← Option.some.inj h.2]
        exact s.weight_emit .indent pos pos
      · simp only [if_neg hdeeper] at h
        split at h
        · cases h
        · simp only [Option.ite_none_right_eq_some] at h
          rw [← Option.some.inj h.2]
          exact hclose

/-- The start of a line takes only characters that are left. -/
theorem beginLine_le {s s' : LexState} {k k' : Cursor} {isBlankLine : Bool}
    (h : beginLine s k = some (s', k', isBlankLine)) :
    s'.weight = s.weight ∧ k'.rest.length ≤ k.rest.length := by
  unfold beginLine at h
  by_cases hstart : s.atLineStart
  · rw [if_pos hstart, Option.bind_eq_bind, Option.bind_eq_some_iff] at h
    obtain ⟨⟨i, k₁⟩, hindent, h⟩ := h
    have hlength := length_lineIndent_le hindent
    simp only at h
    by_cases hpass : (isBlankRest k₁.rest || !s.brackets.isEmpty) = true
    · rw [if_pos hpass] at h
      cases h
      exact ⟨rfl, hlength⟩
    · rw [if_neg hpass, Option.bind_eq_bind, Option.bind_eq_some_iff] at h
      obtain ⟨s₁, hs₁, h⟩ := h
      cases h
      exact ⟨(weight_indentLine hs₁).trans rfl, hlength⟩
  · rw [if_neg hstart] at h
    cases h
    exact ⟨rfl, Nat.le_refl _⟩

theorem length_skipIgnored_le (k : Cursor) : (skipIgnored k).rest.length ≤ k.rest.length := by
  unfold skipIgnored
  simp only []
  split <;> simp only [Cursor.length_rest_skip] <;> omega

/-! ## Tokens -/

/-- The body of a literal and its closing quote come out of the text. -/
theorem length_scanBody_lt {quote : Char} {triple : Bool} {acc body : List Char} {pos : Position}
    {cs : List Char} {k : Cursor} (h : scanBody quote triple acc pos cs = some (body, k)) :
    body.length + k.rest.length < acc.length + cs.length := by
  fun_induction scanBody quote triple acc pos cs with
  | case1 => cases h
  | case2 => cases h
  | case3 acc pos c cs ih =>
    have := ih h
    simp only [List.length_cons] at this ⊢
    omega
  | case4 acc pos c cs =>
    cases h
    simp
  | case5 acc pos c cs =>
    cases h
    simp only [List.length_drop, List.length_cons]
    omega
  | case6 => cases h
  | case7 acc pos c cs _ _ _ _ ih =>
    have := ih h
    simp only [List.length_cons] at this ⊢
    omega

theorem weight_scanText_le {mark : List Char} {quote : Char} {k after : Cursor} {token : Token}
    (hk : k.rest ≠ []) (h : scanText mark quote k = some (token, after)) :
    token.weight + after.rest.length ≤ k.rest.length := by
  simp only [scanText, Option.bind_eq_bind, Option.bind_eq_some_iff] at h
  obtain ⟨⟨body, k₁⟩, hbody, h⟩ := h
  cases h
  have hlength := length_scanBody_lt hbody
  have hpos := List.length_pos_iff.2 hk
  rw [Cursor.length_rest_skip, List.length_nil] at hlength
  simp only [Token.weight, List.length_reverse]
  split at hlength <;> omega

theorem weight_wordToken? {word : List Char} {token : Token} (h : wordToken? word = some token) :
    token.weight = 0 := by
  unfold wordToken? at h
  grind [Token.weight]

/-- A word weighs at most as much as its characters. -/
theorem weight_scanWord_le {k after : Cursor} {token : Token}
    (h : scanWord k = some (token, after)) :
    token.weight + after.rest.length ≤ k.rest.length := by
  unfold scanWord at h
  generalize k.rest.takeWhile NumberLiteral.isNamePart = word at h
  have hskip := k.length_rest_skip word.length
  have hplain (hword : (wordToken? word).map (·, k.skip word.length) = some (token, after)) :
      token.weight + after.rest.length ≤ k.rest.length := by
    obtain ⟨t, ht, heq⟩ := Option.map_eq_some_iff.1 hword
    cases heq
    rw [weight_wordToken? ht]
    omega
  simp only at h
  split at h
  · exact hplain h
  · rename_i c cs hrest
    split at h
    · have htext := weight_scanText_le (by simp [hrest]) h
      omega
    · exact hplain h

theorem weight_accept_le (s : LexState) {k after : Cursor} {token : Token}
    (h : token.weight + after.rest.length ≤ k.rest.length) :
    (s.accept k (token, after)).1.weight + after.rest.length ≤ s.weight + k.rest.length := by
  have hweight := s.weight_emit token k.pos after.pos
  simp only [LexState.accept]
  omega

/-- A token takes at least its weight from the text. -/
theorem weight_scanToken_le {s s' : LexState} {c : Char} {k k' : Cursor} {cs : List Char}
    (hk : k.rest = c :: cs) (h : scanToken s c k = some (s', k')) :
    s'.weight + k'.rest.length ≤ s.weight + k.rest.length := by
  have haccept {found : Option (Token × Cursor)} (h : found.map (s.accept k) = some (s', k'))
      (hfound : ∀ token after, found = some (token, after) →
        token.weight + after.rest.length ≤ k.rest.length) :
      s'.weight + k'.rest.length ≤ s.weight + k.rest.length := by
    obtain ⟨⟨token, after⟩, hx, heq⟩ := Option.map_eq_some_iff.1 h
    cases heq
    exact weight_accept_le s (hfound token _ hx)
  unfold scanToken at h
  split at h
  · refine haccept h fun token after hnumber => ?_
    simp only [scanNumber, Option.bind_eq_bind, Option.bind_eq_some_iff] at hnumber
    obtain ⟨⟨value, rest⟩, -, heq⟩ := hnumber
    cases heq
    have hle := k.length_rest_moveTo_le rest
    simpa [Token.weight] using hle
  split at h
  · exact haccept h fun token after htext => weight_scanText_le (by simp [hk]) htext
  split at h
  · exact haccept h fun token after hword => weight_scanWord_le hword
  · simp only [Option.bind_eq_bind, Option.bind_eq_some_iff] at h
    obtain ⟨symbol, -, brackets, -, heq⟩ := h
    cases heq
    refine weight_accept_le { s with brackets } ?_
    have hskip := k.length_rest_skip symbol.length
    simp only [Token.weight]
    omega

theorem textWeight_close {s : LexState} {pos : Position} {tokens : List Lexeme}
    (h : close s pos = some tokens) : textWeight tokens = s.weight := by
  simp only [close, Option.ite_none_right_eq_some] at h
  rw [← Option.some.inj h.2]
  exact s.weight_emit .stop pos pos

/-- What the loop has taken and what it has left never grow. -/
theorem textWeight_loop_le {fuel : Nat} {s : LexState} {k : Cursor} {tokens : List Lexeme}
    (h : loop fuel s k = some tokens) : textWeight tokens ≤ s.weight + k.rest.length := by
  induction fuel generalizing s k with
  | zero => cases h
  | succ fuel ih =>
    simp only [loop, Option.bind_eq_bind, Option.bind_eq_some_iff] at h
    obtain ⟨⟨s₁, k₁, isBlankLine⟩, hline, h⟩ := h
    obtain ⟨hweight, hlength⟩ := beginLine_le hline
    have hskip := length_skipIgnored_le k₁
    simp only at h
    generalize skipIgnored k₁ = k₂ at h hskip
    split at h
    · have hclose := textWeight_close h
      omega
    · have hnext : k₂.next.rest.length ≤ k₂.rest.length := by
        simp [Cursor.rest_next]
      have hrest := ih h
      -- The end of a line weighs nothing, whether it is a token or not.
      have hline := s₁.weight_emit .newline k₂.pos ⟨k₂.pos.line, k₂.pos.column + 1⟩
      simp only [LexState.weight, Token.weight] at hrest hline hweight ⊢
      split at hrest <;> omega
    · split at h
      · have hrest := ih h
        rw [Cursor.length_rest_skip] at hrest
        omega
      · cases h
    · rename_i hrest
      obtain ⟨⟨s₂, k₃⟩, htoken, h⟩ := Option.bind_eq_some_iff.1 h
      have htaken := weight_scanToken_le hrest htoken
      have hleft := ih h
      simp only at hleft
      omega

end Lexer

/-- The quoted literals of a text are together no longer than it. -/
theorem textWeight_scanFrom_le {pos : Position} {cs : List Char} {tokens : List Lexeme}
    (h : Token.scanFrom pos cs = some tokens) : textWeight tokens ≤ cs.length := by
  have hloop := Lexer.textWeight_loop_le h
  simpa [LexState.weight, textWeight] using hloop

end RouteLens
