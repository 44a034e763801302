import RouteLens.Text.Quote

/-!
# Faults

Why a request has no answer.  Each constructor is a cause; `Fault.message` words the ones that are
reported with their wording.
-/

namespace RouteLens

/-- Why an expression cannot be printed. -/
inductive Unprintable where
  /-- An integer has more digits than one is written with. -/
  | tooManyDigits
  /-- A value in a text cannot be written without a backslash. -/
  | embeddedBackslash
  deriving DecidableEq

/-- The wording of the fault. -/
def Unprintable.message : Unprintable → String
  | .tooManyDigits =>
    "Exceeds the limit (4300 digits) for integer string conversion; " ++
      "use sys.set_int_max_str_digits() to increase the limit"
  | .embeddedBackslash => "Unable to avoid backslash in f-string expression part"

/-- Why a request has no answer. -/
inductive Fault where
  /-- A text that is read as source holds a null character. -/
  | nullCharacter
  /-- A text that is read as source does not follow the grammar. -/
  | malformedSource
  /-- An infinite number has no integer part. -/
  | infiniteNumber
  /-- Not-a-number has no integer part. -/
  | undefinedNumber
  /-- An integer is beyond the floating-point range. -/
  | integerTooLarge
  /-- A quotient of integers is beyond the floating-point range. -/
  | quotientTooLarge
  /-- An integer is beyond what a length can be. -/
  | lengthTooLarge
  /-- A text or bytes would be longer than a length can be. -/
  | tooLong
  /-- A list would be longer than a length can be. -/
  | outOfMemory
  /-- A number is divided by zero. -/
  | zeroDivision
  /-- Calls are nested too deeply. -/
  | tooDeep
  /-- An expression cannot be printed. -/
  | unprintable (reason : Unprintable)
  /-- A text is not an integer. -/
  | badInteger (s : String)
  /-- A text is not a floating-point number. -/
  | badFloat (s : String)
  /-- A value is of a kind that the operation does not take. -/
  | wrongKind
  /-- A value has no such part. -/
  | noSuchPart
  /-- A key is not among the known ones. -/
  | unknownKey
  /-- A file does not exist. -/
  | fileMissing
  /-- A directory stands where a file is needed. -/
  | isDirectory
  /-- A file stands where a directory is needed. -/
  | notDirectory
  /-- Bytes are not the encoding of a text. -/
  | badEncoding
  /-- A settings document cannot be read, or a value cannot be written as one. -/
  | badDocument
  deriving DecidableEq

namespace Fault

/-- The wording of a fault, for the faults that are reported with one. -/
def message? : Fault → Option String
  | .nullCharacter => some "source code string cannot contain null bytes"
  | .infiniteNumber => some "cannot convert float infinity to integer"
  | .undefinedNumber => some "cannot convert float NaN to integer"
  | .integerTooLarge => some "int too large to convert to float"
  | .quotientTooLarge => some "integer division result too large for a float"
  | .lengthTooLarge => some "cannot fit 'int' into an index-sized integer"
  | .unprintable reason => some reason.message
  | .badInteger s => some ("invalid literal for int() with base 10: " ++ Text.quote s)
  | .badFloat s => some ("could not convert string to float: " ++ Text.quote s)
  | _ => none

end Fault

/-- The classes of faults that an evaluation may pass over. -/
inductive FaultClass where
  /-- A value is of a wrong kind. -/
  | kind
  | zeroDivision
  /-- A number or a length is out of range. -/
  | range
  deriving DecidableEq

/-- The class of a fault; the other faults are of none of these. -/
def Fault.class? : Fault → Option FaultClass
  | .wrongKind => some .kind
  | .zeroDivision => some .zeroDivision
  | .infiniteNumber | .integerTooLarge | .quotientTooLarge | .lengthTooLarge | .tooLong =>
    some .range
  | _ => none

/-! ## Results that may be faults -/

instance decidableEqExcept {ε α : Type} [DecidableEq ε] [DecidableEq α] :
    DecidableEq (Except ε α)
  | .ok a, .ok b => decidable_of_iff (a = b) (by simp)
  | .error e, .error f => decidable_of_iff (e = f) (by simp)
  | .ok _, .error _ => .isFalse (by simp)
  | .error _, .ok _ => .isFalse (by simp)

section Outcome

variable {ε α β : Type}

/-- A result that has to be there: its absence is a fault. -/
def orFault (f : Fault) : Option α → Except Fault α
  | some a => .ok a
  | none => .error f

@[simp] theorem orFault_some (f : Fault) (a : α) : orFault f (some a) = .ok a := rfl

@[simp] theorem orFault_none (f : Fault) : orFault f (none : Option α) = .error f := rfl

theorem orFault_eq_ok_iff {f : Fault} {o : Option α} {a : α} :
    orFault f o = .ok a ↔ o = some a := by
  cases o <;> simp

@[simp] theorem ok_bind (a : α) (f : α → Except ε β) : (Except.ok a >>= f) = f a := rfl

@[simp] theorem error_bind (e : ε) (f : α → Except ε β) :
    (Except.error e >>= f) = .error e := rfl

@[simp] theorem pure_eq_ok (a : α) : (pure a : Except ε α) = .ok a := rfl

@[simp] theorem map_ok (f : α → β) (a : α) : (Except.ok a : Except ε α).map f = .ok (f a) := rfl

@[simp] theorem map_error (f : α → β) (e : ε) :
    (Except.error e : Except ε α).map f = .error e := rfl

@[simp] theorem fmap_eq_map (f : α → β) (x : Except ε α) : f <$> x = x.map f := rfl

theorem bind_eq_ok_iff {x : Except ε α} {f : α → Except ε β} {b : β} :
    x >>= f = .ok b ↔ ∃ a, x = .ok a ∧ f a = .ok b := by
  cases x <;> simp

theorem map_eq_ok_iff {x : Except ε α} {f : α → β} {b : β} :
    x.map f = .ok b ↔ ∃ a, x = .ok a ∧ f a = b := by
  cases x <;> simp

theorem toOption_eq_some_iff {x : Except ε α} {a : α} : x.toOption = some a ↔ x = .ok a := by
  cases x <;> simp [Except.toOption]

theorem bind_eq_error_iff {x : Except ε α} {f : α → Except ε β} {e : ε} :
    x >>= f = .error e ↔ x = .error e ∨ ∃ a, x = .ok a ∧ f a = .error e := by
  cases x <;> simp

/-- A result that passes a check is a result. -/
theorem exists_ok_of_any {x : Except ε α} {check : α → Bool}
    (h : x.toOption.any check = true) : ∃ a, x = .ok a ∧ check a = true := by
  cases x with
  | error e => cases h
  | ok a => exact ⟨a, rfl, h⟩

end Outcome

end RouteLens
