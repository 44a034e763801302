import RouteLens.Feedback

/-!
# Partial and completed configurations

A partial configuration leaves out sections, or keys of sections.  `Config.merge` completes it from
the default configuration, key by key; the readers of settings fill in what is left out on their
own.  Every reader but two gives the same for a partial configuration and for the completed one.
The two are the reader of patterns for the caller (`AuthRules.fillsIn`), which leaves a section
aside that sets no patterns, and the reader of transaction patterns, which takes an absent list as
empty.

Entries are compared by what they give for text keys (`Entries.Agree`): completing a section twice
agrees with completing it once.
-/

namespace RouteLens

variable {edition : Nat} [CharacterNames edition]

/-! ## Dictionaries by key -/

namespace Value

variable {k key v : Value} {n : String} {es : List (Value × Value)}

theorem sameKey_text_iff : k.sameKey (.text n) = true ↔ k = .text n := by
  cases k <;> simp [sameKey, number?]

theorem text_sameKey_iff : (text n).sameKey k = true ↔ k = .text n := by
  cases k with
  | text s => simpa [sameKey, number?] using eq_comm
  | _ => simp [sameKey, number?]

theorem get?_cons (k v : Value) (es : List (Value × Value)) (n : String) :
    get? ((k, v) :: es) n = if k.sameKey (.text n) then some v else get? es n := rfl

/-- An entry that is put is read back at its key, and nothing else changes. -/
theorem get?_putEntry (key v : Value) (es : List (Value × Value)) (n : String) :
    get? (putEntry key v es) n = if key.sameKey (.text n) then some v else get? es n := by
  induction es with
  | nil => rfl
  | cons e es ih =>
    obtain ⟨k, w⟩ := e
    unfold putEntry
    by_cases hk : k.sameKey key = true
    · rw [if_pos hk, get?_cons, get?_cons]
      -- the two keys are the same, so that both are the text or none is
      by_cases hn : k = .text n
      · subst hn
        obtain rfl := text_sameKey_iff.1 hk
        simp [hk]
      · have hkey : key ≠ .text n := by
          rintro rfl
          exact hn (sameKey_text_iff.1 hk)
        rw [if_neg (mt sameKey_text_iff.1 hn), if_neg (mt sameKey_text_iff.1 hkey),
          if_neg (mt sameKey_text_iff.1 hn)]
    · rw [if_neg hk, get?_cons, get?_cons, ih]
      by_cases hn : k = .text n
      · subst hn
        have hkey : key ≠ .text n := fun h => hk (text_sameKey_iff.2 h)
        rw [if_pos (sameKey_text_iff.2 rfl), if_neg (mt sameKey_text_iff.1 hkey),
          if_pos (sameKey_text_iff.2 rfl)]
      · rw [if_neg (mt sameKey_text_iff.1 hn), if_neg (mt sameKey_text_iff.1 hn)]

end Value

namespace Entries

variable {base upper es es' : Entries}

/-- No key of a dictionary stands twice. -/
def DistinctKeys (es : Entries) : Prop :=
  es.Pairwise fun a b => a.1.sameKey b.1 = false

instance (es : Entries) : Decidable es.DistinctKeys :=
  inferInstanceAs (Decidable (es.Pairwise _))

/-- Two dictionaries give the same for every text key. -/
def Agree (es es' : Entries) : Prop :=
  ∀ n, Value.get? es n = Value.get? es' n

theorem DistinctKeys.get?_tail {k v : Value} {n : String} (h : DistinctKeys ((k, v) :: es))
    (hk : k.sameKey (.text n) = true) : Value.get? es n = none := by
  obtain rfl := Value.sameKey_text_iff.1 hk
  have hhead := (List.pairwise_cons.1 h).1
  clear h hk
  induction es with
  | nil => rfl
  | cons e es ih =>
    have he : ¬ e.1.sameKey (.text n) = true := fun heq => by
      have := hhead e List.mem_cons_self
      rw [Value.text_sameKey_iff.2 (Value.sameKey_text_iff.1 heq)] at this
      cases this
    rw [Value.get?_cons, if_neg he]
    exact ih fun b hb => hhead b (List.mem_cons_of_mem _ hb)

theorem key_of_mem_putEntry {key v : Value} {e : Value × Value}
    (h : e ∈ Value.putEntry key v es) : e.1 = key ∨ ∃ d ∈ es, d.1 = e.1 := by
  induction es with
  | nil => exact .inl (by rw [List.mem_singleton.1 h])
  | cons d es ih =>
    obtain ⟨k, w⟩ := d
    unfold Value.putEntry at h
    split at h
    · rcases List.mem_cons.1 h with rfl | h
      · exact .inr ⟨(k, w), List.mem_cons_self, rfl⟩
      · exact .inr ⟨e, List.mem_cons_of_mem _ h, rfl⟩
    · rcases List.mem_cons.1 h with rfl | h
      · exact .inr ⟨(k, w), List.mem_cons_self, rfl⟩
      · rcases ih h with hkey | ⟨d, hd, heq⟩
        · exact .inl hkey
        · exact .inr ⟨d, List.mem_cons_of_mem _ hd, heq⟩

/-- Putting an entry keeps the keys distinct. -/
theorem DistinctKeys.putEntry {key v : Value} (h : es.DistinctKeys) :
    DistinctKeys (Value.putEntry key v es) := by
  induction es with
  | nil => exact List.pairwise_singleton _ _
  | cons e es ih =>
    obtain ⟨k, w⟩ := e
    obtain ⟨hhead, htail⟩ := List.pairwise_cons.1 h
    unfold Value.putEntry
    by_cases hk : k.sameKey key = true
    · rw [if_pos hk]
      exact List.pairwise_cons.2 ⟨hhead, htail⟩
    · rw [if_neg hk]
      refine List.pairwise_cons.2 ⟨fun b hb => ?_, ih htail⟩
      rcases key_of_mem_putEntry hb with hkey | ⟨d, hd, heq⟩
      · rw [hkey]
        exact Bool.eq_false_iff.2 hk
      · rw [← heq]
        exact hhead d hd

theorem get?_overlay (h : upper.DistinctKeys) (n : String) :
    Value.get? (overlay base upper) n = (Value.get? upper n).or (Value.get? base n) := by
  induction upper generalizing base with
  | nil => rfl
  | cons e upper ih =>
    obtain ⟨k, v⟩ := e
    have hrest : Value.get? (overlay base ((k, v) :: upper)) n =
        (Value.get? upper n).or (Value.get? (Value.putEntry k v base) n) :=
      ih (List.pairwise_cons.1 h).2
    rw [hrest, Value.get?_putEntry, Value.get?_cons]
    by_cases hk : k.sameKey (.text n) = true
    · rw [h.get?_tail hk, if_pos hk, if_pos hk]
      rfl
    · rw [if_neg hk, if_neg hk]

theorem DistinctKeys.overlay (h : base.DistinctKeys) (upper : Entries) :
    DistinctKeys (overlay base upper) := by
  induction upper generalizing base with
  | nil => exact h
  | cons e upper ih => exact ih h.putEntry

/-- Filling in defaults a second time changes nothing. -/
theorem agree_overlay_overlay (hbase : base.DistinctKeys) (h : es.DistinctKeys) :
    Agree (overlay base es) (overlay base (overlay base es)) := by
  intro n
  rw [get?_overlay (hbase.overlay es), get?_overlay h]
  cases Value.get? es n <;> cases Value.get? base n <;> rfl

theorem isEmpty_overlay (h : base.isEmpty = false) (upper : Entries) :
    (overlay base upper).isEmpty = false := by
  induction upper generalizing base with
  | nil => exact h
  | cons e upper ih =>
    refine ih ?_
    cases base with
    | nil => cases h
    | cons d base =>
      simp only [Value.putEntry]
      split <;> rfl

theorem Agree.need (h : Agree es es') (key : String) : es.need key = es'.need key := by
  rw [Entries.need, Entries.need, h key]

theorem Agree.listing (h : Agree es es') (odd : Fault) (key : String) :
    es.listing odd key = es'.listing odd key := by
  unfold Entries.listing
  rw [h key]

end Entries

/-! ## Sections -/

namespace Config

variable {c : Config} {name : String} {defaults : Entries}

/-- A configuration as it is given: no key stands twice, and every section that the default
configuration has is a dictionary. -/
structure IsGiven (c : Config) : Prop where
  distinct : c.sections.DistinctKeys
  isDict : ∀ name v, (default.section? name).isSome = true → c.section? name = some v →
    ∃ es : Entries, v = .dict es ∧ es.DistinctKeys

theorem get?_putSection_of_ne (es : Entries) (value : Value) {key : Value} {n : String}
    (hkey : ¬ key.sameKey (.text n) = true) :
    Value.get? (putSection es key value) n = Value.get? es n := by
  unfold putSection
  split <;> rw [Value.get?_putEntry, if_neg hkey]

theorem get?_putSection_dict {es base : Entries} {n : String}
    (hbase : Value.get? es n = some (.dict base)) (upper : Entries) :
    Value.get? (putSection es (.text n) (.dict upper)) n =
      some (.dict (Entries.overlay base upper)) := by
  have hput : putSection es (.text n) (.dict upper) =
      Value.putEntry (.text n) (.dict (Entries.overlay base upper)) es := by
    rw [Value.get?] at hbase
    simp only [putSection, hbase]
  rw [hput, Value.get?_putEntry, if_pos (Value.sameKey_text_iff.2 rfl)]

/-- A section that is not given stays as it was. -/
theorem get?_foldl_putSection_of_none {user : Entries} {n : String}
    (hnone : Value.get? user n = none) (base : Entries) :
    Value.get? (user.foldl (fun es e => putSection es e.1 e.2) base) n = Value.get? base n := by
  induction user generalizing base with
  | nil => rfl
  | cons e user ih =>
    rw [Value.get?_cons] at hnone
    split at hnone
    case isTrue => cases hnone
    case isFalse hk => rw [List.foldl_cons, ih hnone, get?_putSection_of_ne base e.2 hk]

/-- A dictionary that is given is laid over the section. -/
theorem get?_foldl_putSection_of_dict {user base upper sections : Entries} {n : String}
    (hdistinct : user.DistinctKeys) (hupper : Value.get? user n = some (.dict upper))
    (hbase : Value.get? sections n = some (.dict base)) :
    Value.get? (user.foldl (fun es e => putSection es e.1 e.2) sections) n =
      some (.dict (Entries.overlay base upper)) := by
  induction user generalizing sections with
  | nil => cases hupper
  | cons e user ih =>
    obtain ⟨k, v⟩ := e
    rw [List.foldl_cons]
    by_cases hk : k.sameKey (.text n) = true
    · -- the key does not come again, so that the rest leaves the section alone
      rw [get?_foldl_putSection_of_none (hdistinct.get?_tail hk)]
      rw [Value.get?_cons, if_pos hk] at hupper
      obtain rfl := Value.sameKey_text_iff.1 hk
      obtain rfl := Option.some.inj hupper
      exact get?_putSection_dict hbase upper
    · rw [Value.get?_cons, if_neg hk] at hupper
      refine ih (List.pairwise_cons.1 hdistinct).2 hupper ?_
      rw [get?_putSection_of_ne sections v hk, hbase]

/-- A section of a configuration as it is given, read in all ways, and the same section of the
completed configuration. -/
structure SectionOf (c : Config) (name : String) (defaults es : Entries) : Prop where
  distinct : es.DistinctKeys
  entries_eq : c.entries name = .ok es
  overlaid_eq : c.overlaid name defaults = .ok (Entries.overlay defaults es)
  merged : (merge c.sections).section? name = some (.dict (Entries.overlay defaults es))

/-- A section that is left out counts as one without keys. -/
theorem IsGiven.exists_section (h : c.IsGiven)
    (hdefault : default.section? name = some (.dict defaults)) :
    ∃ es, SectionOf c name defaults es := by
  cases hgiven : c.section? name with
  | none =>
    refine ⟨[], List.Pairwise.nil, ?_, ?_, ?_⟩
    · rw [entries, hgiven]
    · rw [overlaid, hgiven]
      rfl
    · exact (get?_foldl_putSection_of_none hgiven _).trans hdefault
  | some v =>
    obtain ⟨es, rfl, hdistinct⟩ := h.isDict name v (by rw [hdefault]; rfl) hgiven
    refine ⟨es, hdistinct, ?_, ?_, ?_⟩
    · rw [entries, hgiven]
    · rw [overlaid, hgiven]
    · exact get?_foldl_putSection_of_dict h.distinct hgiven hdefault

namespace SectionOf

variable {es : Entries} (h : SectionOf c name defaults es)
include h

theorem entries_merge : (merge c.sections).entries name = .ok (Entries.overlay defaults es) := by
  rw [Config.entries, h.merged]

theorem overlaid_merge : (merge c.sections).overlaid name defaults =
    .ok (Entries.overlay defaults (Entries.overlay defaults es)) := by
  rw [Config.overlaid, h.merged]

theorem get?_merge (key : String) :
    Value.get? (Entries.overlay defaults es) key =
      (Value.get? es key).or (Value.get? defaults key) :=
  Entries.get?_overlay h.distinct key

end SectionOf

/-- What is read from a section with its defaults is the same for the completed configuration, when
it depends only on what text keys give. -/
theorem IsGiven.overlaid_congr {α : Type} (h : c.IsGiven)
    (hdefault : default.section? name = some (.dict defaults)) (hdistinct : defaults.DistinctKeys)
    {read : Entries → Except Fault α} (hread : ∀ es es', es.Agree es' → read es = read es') :
    (merge c.sections).overlaid name defaults >>= read = c.overlaid name defaults >>= read := by
  obtain ⟨es, hes⟩ := h.exists_section hdefault
  rw [hes.overlaid_merge, hes.overlaid_eq]
  exact (hread _ _ (Entries.agree_overlay_overlay hdistinct hes.distinct)).symm

end Config

/-! ## Readers -/

section Readers

variable {c : Config} (h : c.IsGiven)
include h

open Config

theorem discoveryRules_merge :
    DiscoveryRules.ofConfig (merge c.sections) = DiscoveryRules.ofConfig c :=
  h.overlaid_congr rfl (by decide) fun es es' hes => by simp only [hes.need]

theorem docRules_merge : DocRules.ofConfig (merge c.sections) = DocRules.ofConfig c :=
  h.overlaid_congr rfl (by decide) fun es es' hes => by simp only [hes.need]

theorem payloadRules_merge :
    PayloadRules.ofConfig (merge c.sections) = PayloadRules.ofConfig c :=
  h.overlaid_congr rfl (by decide) fun es es' hes => by simp only [hes.need]

theorem feedbackRules_merge :
    FeedbackRules.ofConfig (merge c.sections) = FeedbackRules.ofConfig c :=
  h.overlaid_congr rfl (by decide) fun es es' hes => by simp only [hes.need]

theorem fetchNames_merge : FetchNames.ofConfig (merge c.sections) = FetchNames.ofConfig c := by
  obtain ⟨es, hes⟩ := h.exists_section
    (show Config.default.section? "remote_calls" = some (.dict remoteCallDefaults) from rfl)
  have hagree : Entries.Agree (Entries.overlay remoteCallDefaults es) _ :=
    Entries.agree_overlay_overlay (by decide) hes.distinct
  -- neither table is empty, since the defaults are not
  have htable (upper : Entries) : FetchNames.ofTable (Entries.overlay remoteCallDefaults upper) =
      FetchNames.ofEntries (Entries.overlay remoteCallDefaults upper) := by
    rw [FetchNames.ofTable, Entries.isEmpty_overlay rfl, if_neg Bool.false_ne_true]
  rw [FetchNames.ofConfig, FetchNames.ofConfig, hes.overlaid_merge, hes.overlaid_eq, ok_bind,
    ok_bind, htable, htable]
  simp only [FetchNames.ofEntries, hagree.listing]

theorem complexityLimits_merge :
    ComplexityLimits.ofConfig (merge c.sections) = ComplexityLimits.ofConfig c := by
  obtain ⟨es, hes⟩ := h.exists_section
    (show Config.default.section? "complexity" = some (.dict complexityDefaults) from rfl)
  have hinfo : Value.get? complexityDefaults "info_threshold" = some (.int 7) := rfl
  have hwarn : Value.get? complexityDefaults "warn_threshold" = some (.int 10) := rfl
  simp only [ComplexityLimits.ofConfig, hes.entries_merge, hes.entries_eq, ok_bind, hes.get?_merge,
    hinfo, hwarn]
  cases Value.get? es "info_threshold" <;> cases Value.get? es "warn_threshold" <;> rfl

theorem exceptionRules_merge :
    ExceptionRules.ofConfig (merge c.sections) = ExceptionRules.ofConfig c := by
  obtain ⟨es, hes⟩ := h.exists_section
    (show Config.default.section? "exceptions" = some (.dict exceptionDefaults) from rfl)
  simp only [ExceptionRules.ofConfig, hes.entries_merge, hes.entries_eq, ok_bind, hes.get?_merge]
  cases Value.get? es "modules" <;> cases Value.get? es "suffixes" <;>
    cases Value.get? es "priority" <;> rfl

/-- A configuration gives transaction patterns, or leaves the whole section out. -/
theorem transactionPatterns_merge
    (hpatterns : ∀ es, c.section? "transactions" = some (.dict es) →
      (Value.get? es "patterns").isSome = true) :
    transactionPatterns (merge c.sections) = transactionPatterns c := by
  have hdefault : Config.default.section? "transactions" = some (.dict transactionDefaults) := rfl
  unfold transactionPatterns
  cases hgiven : c.section? "transactions" with
  | none =>
    have hmerged : (merge c.sections).section? "transactions" = some (.dict transactionDefaults) :=
      (get?_foldl_putSection_of_none hgiven _).trans hdefault
    rw [hmerged]
  | some v =>
    obtain ⟨es, rfl, hdistinct⟩ := h.isDict _ v rfl hgiven
    have hmerged : (merge c.sections).section? "transactions" = some (.dict _) :=
      get?_foldl_putSection_of_dict h.distinct hgiven hdefault
    obtain ⟨v, hv⟩ := Option.isSome_iff_exists.1 (hpatterns es hgiven)
    rw [hmerged]
    simp only [pure_bind, Entries.textsOr, Entries.get?_overlay hdistinct, hv, Option.some_or]

end Readers

namespace AuthRules

variable {es es' : Entries}

/-- Whether a section is completed in the same way when it is read and when it is merged: it sets
patterns, or it gives both lists, or it gives no list and no names. -/
def fillsIn (es : Entries) : Bool :=
  isSet es || ((Value.get? es "parameters").isSome && (Value.get? es "decorators").isSome) ||
    ((Value.get? es "parameters").isNone && (Value.get? es "decorators").isNone &&
      (Value.get? es "request_param_names").isNone)

theorem ofEntries_congr (hparameters : Value.get? es "parameters" = Value.get? es' "parameters")
    (hdecorators : Value.get? es "decorators" = Value.get? es' "decorators")
    (hnames : Value.get? es "request_param_names" = Value.get? es' "request_param_names") :
    ofEntries es = ofEntries es' := by
  simp only [ofEntries, Entries.textsOr, Entries.need, hparameters, hdecorators, hnames]

/-- A section sets patterns after it is completed, if it did before. -/
theorem isSet_overlay (hes : es.DistinctKeys) (h : isSet es = true) :
    isSet (Entries.overlay Config.authDefaults es) = true := by
  unfold isSet at h ⊢
  rw [Entries.get?_overlay hes, Entries.get?_overlay hes]
  rcases Bool.or_eq_true_iff.1 h with h | h
  · obtain ⟨v, hv, htrue⟩ := (Option.any_eq_true _ _).1 h
    simp [hv, htrue]
  · obtain ⟨v, hv, htrue⟩ := (Option.any_eq_true _ _).1 h
    simp [hv, htrue]

/-- Whether the section that counts is the completed one or the given one makes no difference. -/
theorem completed_eq (hes : es.DistinctKeys) (h : fillsIn es = true) :
    (if isSet (Entries.overlay Config.authDefaults es) then
        ofEntries (Entries.overlay Config.authDefaults es) else default) =
      if isSet es then ofEntries (Entries.overlay Config.authDefaults es) else default := by
  by_cases hset : isSet es = true
  · rw [if_pos hset, if_pos (isSet_overlay hes hset)]
  · rw [if_neg hset]
    simp only [fillsIn, Bool.or_eq_true, Bool.and_eq_true, Option.isNone_iff_eq_none,
      Option.isSome_iff_exists] at h
    rcases h with (h | ⟨⟨p, hp⟩, d, hd⟩) | ⟨⟨hp, hd⟩, hr⟩
    · exact absurd h hset
    · -- both lists are given, and neither sets a pattern
      have hempty : isSet (Entries.overlay Config.authDefaults es) = isSet es := by
        simp [isSet, Entries.get?_overlay hes, hp, hd]
      rw [hempty, if_neg hset]
    · -- nothing is given, and the completed section is the default one
      rw [ite_eq_right_iff]
      intro
      refine ofEntries_congr ?_ ?_ ?_
      · rw [Entries.get?_overlay hes, hp, Option.none_or]
      · rw [Entries.get?_overlay hes, hd, Option.none_or]
      · rw [Entries.get?_overlay hes, hr, Option.none_or]

end AuthRules

open Config

/-- Completing a configuration changes no rule about callers that reading it fills in the same
way. -/
theorem authRules_merge {c : Config} (h : c.IsGiven)
    (hauth : ∀ es, c.section? "auth" = some (.dict es) → AuthRules.fillsIn es = true) :
    AuthRules.ofConfig (merge c.sections) = AuthRules.ofConfig c := by
  obtain ⟨es, hes⟩ := h.exists_section
    (show Config.default.section? "auth" = some (.dict authDefaults) from rfl)
  have hfills : AuthRules.fillsIn es = true := by
    have hentries := hes.entries_eq
    unfold Config.entries at hentries
    split at hentries
    case h_1 =>
      cases hentries
      rfl
    case h_2 es' hgiven =>
      cases hentries
      exact hauth es hgiven
    case h_3 => cases hentries
  have hagain :
      AuthRules.ofEntries (Entries.overlay authDefaults (Entries.overlay authDefaults es)) =
        AuthRules.ofEntries (Entries.overlay authDefaults es) := by
    have hagree : Entries.Agree (Entries.overlay authDefaults es) _ :=
      Entries.agree_overlay_overlay (by decide) hes.distinct
    exact AuthRules.ofEntries_congr (hagree _).symm (hagree _).symm (hagree _).symm
  rw [AuthRules.ofConfig, AuthRules.ofConfig, hes.entries_merge, hes.entries_eq, ok_bind, ok_bind,
    hagain]
  exact AuthRules.completed_eq hes.distinct hfills

end RouteLens
