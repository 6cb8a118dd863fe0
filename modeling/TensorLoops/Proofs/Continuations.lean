import Mathlib.Computability.Language
import TensorLoops.Proofs.Prediction
import TensorLoops.Source.KernelGrammar

namespace TensorLoops

namespace Source

variable {L M : Language (Located Token)} {us vs ts : Tokens} {t : Located Token}

/-- Some sentence begins with `ts`. -/
def Viable (L : Language (Located Token)) (ts : Tokens) : Prop := ∃ rest, ts ++ rest ∈ L

/-- Some sentence begins with `ts` followed by `t`. -/
def Next (L : Language (Located Token)) (ts : Tokens) (t : Located Token) : Prop :=
  ∃ rest, ts ++ t :: rest ∈ L

theorem viable_of_mem (h : ts ∈ L) : Viable L ts := ⟨[], by rwa [List.append_nil]⟩

theorem viable_left (h : Viable L (us ++ vs)) : Viable L us := by
  obtain ⟨rest, h⟩ := h
  exact ⟨vs ++ rest, by rwa [← List.append_assoc]⟩

theorem viable_concat : Viable L (ts ++ [t]) ↔ Next L ts t := by
  simp only [Viable, Next, List.append_assoc, List.singleton_append]

theorem next_of_viable (h : Viable L (us ++ t :: vs)) : Next L us t := by
  rw [List.append_cons] at h
  exact viable_concat.mp (viable_left h)

theorem next_of_viable_cons (h : Viable L (t :: vs)) : Next L [] t :=
  next_of_viable (show Viable L ([] ++ t :: vs) from h)

theorem Next.viable (h : Next L ts t) : Viable L ts := viable_left (viable_concat.mpr h)

theorem mem_add : ts ∈ L + M ↔ ts ∈ L ∨ ts ∈ M := Language.mem_add L M ts

theorem viable_add : Viable (L + M) ts ↔ Viable L ts ∨ Viable M ts := by
  simp only [Viable, mem_add, exists_or]

theorem next_add : Next (L + M) ts t ↔ Next L ts t ∨ Next M ts t := by
  simp only [Next, mem_add, exists_or]

theorem not_next_one : ¬ Next 1 ts t := by
  intro h
  obtain ⟨rest, h⟩ := h
  simpa using (Language.mem_one _).mp h

theorem next_add_left (hM : ¬ Viable M us) : Next (L + M) us t ↔ Next L us t :=
  next_add.trans (or_iff_left fun h => hM h.viable)

theorem next_add_right (hL : ¬ Viable L us) : Next (L + M) us t ↔ Next M us t :=
  next_add.trans (or_iff_right fun h => hL h.viable)

/-- What begins in one way does not begin in the other. -/
theorem not_viable_of_viable (h : ∀ t, Next L [] t → ¬ Next M [] t) (hne : us ≠ [])
    (hL : Viable L us) : ¬ Viable M us := by
  intro hM
  obtain ⟨u, us, rfl⟩ := List.exists_cons_of_ne_nil hne
  exact h u (next_of_viable_cons hL) (next_of_viable_cons hM)

/-- A token that can go on with a sentence of `L` does not begin a sentence of `M`. -/
def Parted (L M : Language (Located Token)) : Prop :=
  ∀ us t, us ∈ L → Next L us t → ¬ Next M [] t

/-- What begins like a sentence of `L` and is followed by something to make a sentence of both parts
lies in the first part. -/
theorem Parted.split (h : Parted L M) (hus : Viable L us) (hmul : us ++ vs ∈ L * M) :
    ∃ ws, us ++ ws ∈ L ∧ ∃ zs ∈ M, vs = ws ++ zs := by
  obtain ⟨xs, hxs, zs, hzs, heq⟩ := Language.mem_mul.mp hmul
  rcases List.append_eq_append_iff.mp heq with ⟨as, rfl, rfl⟩ | ⟨ws, rfl, rfl⟩
  · cases as with
    | nil => exact ⟨[], by rwa [List.append_nil, List.append_nil], vs, hzs, rfl⟩
    | cons t as => exact absurd ⟨as ++ vs, hzs⟩ (h xs t hxs (next_of_viable hus))
  · exact ⟨ws, hxs, zs, hzs, rfl⟩

section

variable (h : Parted L M)
include h

/-- Before the first part is complete, it goes on. -/
theorem Parted.next_left (hus : Viable L us) (hout : us ∉ L) (hM : Viable M []) :
    Next (L * M) us t ↔ Next L us t := by
  constructor
  · intro hnext
    obtain ⟨rest, hmul⟩ := hnext
    obtain ⟨ws, hws, zs, -, heq⟩ := h.split hus hmul
    cases ws with
    | nil => exact absurd (List.append_nil us ▸ hws) hout
    | cons u ws =>
      obtain ⟨rfl, rfl⟩ := List.cons.inj heq
      exact ⟨ws, hws⟩
  · intro hnext
    obtain ⟨rest, hL⟩ := hnext
    obtain ⟨zs, hzs⟩ := hM
    exact ⟨rest ++ zs, by simpa using Language.append_mem_mul hL hzs⟩

theorem Parted.notMem_left (hus : Viable L us) (hout : us ∉ L) : us ∉ L * M := by
  intro hmul
  rw [← List.append_nil us] at hmul
  obtain ⟨ws, hws, zs, -, heq⟩ := h.split hus hmul
  obtain ⟨rfl, -⟩ := List.append_eq_nil_iff.mp heq.symm
  exact hout (List.append_nil us ▸ hws)

/-- After the first part is complete, the second one goes on, or the first one if the second one has
not begun. -/
theorem Parted.next_right (hus : us ∈ L) (hvs : Viable M vs) :
    Next (L * M) (us ++ vs) t ↔ Next M vs t ∨ vs = [] ∧ Next L us t := by
  constructor
  · intro hnext
    obtain ⟨rest, hmul⟩ := hnext
    rw [List.append_assoc] at hmul
    obtain ⟨ws, hws, zs, hzs, heq⟩ := h.split (viable_of_mem hus) hmul
    cases ws with
    | nil => exact .inl ⟨rest, heq ▸ hzs⟩
    | cons w ws =>
      have hnext : Next L us w := ⟨ws, hws⟩
      cases vs with
      | nil =>
        obtain ⟨rfl, -⟩ := List.cons.inj heq
        exact .inr ⟨rfl, hnext⟩
      | cons v vs =>
        obtain ⟨rfl, -⟩ := List.cons.inj heq
        exact absurd (next_of_viable_cons hvs) (h us v hus hnext)
  · intro hnext
    rcases hnext with ⟨rest, hM⟩ | ⟨rfl, rest, hL⟩
    · exact ⟨rest, by simpa using Language.append_mem_mul hus hM⟩
    · obtain ⟨zs, hzs⟩ := hvs
      exact ⟨rest ++ zs, by simpa using Language.append_mem_mul hL hzs⟩

theorem Parted.mem_right (hus : us ∈ L) (hvs : Viable M vs) : us ++ vs ∈ L * M ↔ vs ∈ M := by
  refine ⟨fun hmul => ?_, fun hM => Language.append_mem_mul hus hM⟩
  obtain ⟨ws, hws, zs, hzs, rfl⟩ := h.split (viable_of_mem hus) hmul
  cases ws with
  | nil => exact hzs
  | cons w ws => exact absurd (next_of_viable_cons hvs) (h us w hus ⟨ws, hws⟩)

end

theorem viable_mul_left (hus : Viable L us) (hM : Viable M []) : Viable (L * M) us := by
  obtain ⟨rest, hL⟩ := hus
  obtain ⟨zs, hzs⟩ := hM
  exact ⟨rest ++ zs, by simpa using Language.append_mem_mul hL hzs⟩

theorem viable_mul_right (hus : us ∈ L) (hvs : Viable M vs) : Viable (L * M) (us ++ vs) := by
  obtain ⟨rest, hM⟩ := hvs
  exact ⟨rest, by simpa using Language.append_mem_mul hus hM⟩

namespace Grammar

variable {α β : Type} {g : Grammar α} {h : Grammar β}

/-- The token sequences that are derived. -/
def language (g : Grammar α) : Language (Located Token) := {ts | ∃ a, g.Derives ts a}

theorem mem_language_token {expected : Expected} {accept : Token → Option α} :
    ts ∈ (Grammar.token expected accept).language ↔
      ∃ t, ts = [t] ∧ (accept t.value).isSome = true := by
  constructor
  · intro hts
    obtain ⟨a, t, rfl, ha⟩ := hts
    exact ⟨t, rfl, Option.isSome_of_mem ha⟩
  · intro hts
    obtain ⟨t, rfl, ha⟩ := hts
    obtain ⟨a, ha⟩ := Option.isSome_iff_exists.mp ha
    exact ⟨a, t, rfl, ha⟩

theorem language_seq (g : Grammar α) (h : Grammar β) :
    (Grammar.seq g h).language = g.language * h.language := by
  ext ts
  rw [Language.mem_mul]
  constructor
  · intro hts
    obtain ⟨⟨a, b⟩, us, vs, rfl, ha, hb⟩ := hts
    exact ⟨us, ⟨a, ha⟩, vs, ⟨b, hb⟩, rfl⟩
  · intro hts
    obtain ⟨us, ⟨a, ha⟩, vs, ⟨b, hb⟩, rfl⟩ := hts
    exact ⟨(a, b), us, vs, rfl, ha, hb⟩

theorem language_either (g h : Grammar α) :
    (Grammar.either g h).language = g.language + h.language := by
  ext ts
  exact exists_or

theorem language_optional (g : Grammar α) : (Grammar.optional g).language = g.language + 1 := by
  ext ts
  rw [mem_add, Language.mem_one]
  constructor
  · intro hts
    obtain ⟨a, ha⟩ := hts
    cases a with
    | none => exact .inr ha
    | some a => exact .inl ⟨a, ha⟩
  · intro hts
    rcases hts with ⟨a, ha⟩ | rfl
    · exact ⟨some a, ha⟩
    · exact ⟨none, rfl⟩

theorem language_many (g : Grammar α) :
    (Grammar.many g).language = g.language * (Grammar.many g).language + 1 := by
  ext ts
  rw [mem_add, Language.mem_one, Language.mem_mul]
  constructor
  · intro hts
    obtain ⟨as, has⟩ := hts
    cases (show Repeated g.Derives ts as from has) with
    | nil => exact .inr rfl
    | cons head tail => exact .inl ⟨_, ⟨_, head⟩, _, ⟨_, tail⟩, rfl⟩
  · intro hts
    rcases hts with ⟨us, ⟨a, ha⟩, vs, ⟨as, has⟩, rfl⟩ | rfl
    · exact ⟨a :: as, Repeated.cons ha has⟩
    · exact ⟨[], Repeated.nil⟩

theorem mem_language_symbol {s : Symbol} :
    ts ∈ (symbol s).language ↔ ∃ t, ts = [t] ∧ t.value = .symbol s := by
  refine mem_language_token.trans (exists_congr fun t => and_congr_right fun _ => ?_)
  by_cases ht : t.value = .symbol s <;> simp [ht]

theorem language_list (g : Grammar α) :
    (Grammar.list g).language =
      g.language * ((symbol .comma).language * (Grammar.list g).language + 1) + 1 := by
  ext ts
  rw [mem_add, Language.mem_one, Language.mem_mul]
  constructor
  · intro hts
    obtain ⟨as, has⟩ := hts
    cases (show Listed g.Derives ts as from has) with
    | nil => exact .inr rfl
    | last head =>
      exact .inl ⟨ts, ⟨_, head⟩, [], mem_add.mpr (.inr rfl), List.append_nil ts⟩
    | @cons us vs separator a as head hcomma tail =>
      have hseparator := mem_language_symbol.mpr ⟨separator, rfl, hcomma⟩
      exact .inl ⟨us, ⟨a, head⟩, separator :: vs,
        mem_add.mpr (.inl (Language.append_mem_mul hseparator ⟨as, tail⟩)), rfl⟩
  · intro hts
    rcases hts with ⟨us, ⟨a, ha⟩, vs, hvs, rfl⟩ | rfl
    · rcases mem_add.mp hvs with hvs | rfl
      · obtain ⟨separator, hseparator, ws, ⟨as, has⟩, rfl⟩ := Language.mem_mul.mp hvs
        obtain ⟨t, rfl, ht⟩ := mem_language_symbol.mp hseparator
        exact ⟨a :: as, Listed.cons ha ht has⟩
      · rw [List.append_nil]
        exact ⟨[a], Listed.last ha⟩
    · exact ⟨[], Listed.nil⟩

theorem language_map (f : α → β) (g : Grammar α) : (Grammar.map f g).language = g.language := by
  ext ts
  constructor
  · intro hts
    obtain ⟨b, a, ha, -⟩ := hts
    exact ⟨a, ha⟩
  · intro hts
    obtain ⟨a, ha⟩ := hts
    exact ⟨f a, a, ha, rfl⟩

theorem language_located (g : Grammar α) : (Grammar.located g).language = g.language := by
  ext ts
  constructor
  · intro hts
    obtain ⟨a, ha, -⟩ := hts
    exact ⟨a.value, ha⟩
  · intro hts
    obtain ⟨a, ha⟩ := hts
    exact ⟨⟨a, cover ts⟩, ha, rfl⟩

theorem starts_of_next (h : Next g.language [] t) : g.starts t.value = true := by
  obtain ⟨rest, a, ha⟩ := h
  exact ha.starts.2 t rfl

theorem nil_notMem (hn : g.nullable = false) : [] ∉ g.language := by
  intro h
  obtain ⟨a, ha⟩ := h
  exact ha.ne_nil hn rfl

/-- Nothing follows a single token. -/
theorem not_next_token {expected : Expected} {accept : Token → Option α} (hts : ts ≠ []) :
    ¬ Next (Grammar.token expected accept).language ts t := by
  intro h
  obtain ⟨rest, h⟩ := h
  obtain ⟨u, hu, -⟩ := mem_language_token.mp h
  cases ts with
  | nil => exact hts rfl
  | cons v ts => simp at hu

/-- Every token that can follow a sentence is among those with which the grammar goes on. -/
def Foresees (g : Grammar α) : Prop :=
  ∀ us t, us ∈ g.language → Next g.language us t → g.continues t.value = true

theorem Foresees.parted {M : Language (Located Token)} {p : Token → Bool} (hg : g.Foresees)
    (hp : ∀ t, g.continues t = true → p t = false)
    (hM : ∀ t, Next M [] t → p t.value = true) : Parted g.language M := by
  intro us t hus hnext hbegin
  have hfalse := hp t.value (hg us t hus hnext)
  rw [hM t hbegin] at hfalse
  cases hfalse

theorem parted_symbol (s : Symbol) (M : Language (Located Token)) :
    Parted (symbol s).language M := by
  intro us t hus hnext
  obtain ⟨u, rfl, -⟩ := mem_language_symbol.mp hus
  exact absurd hnext (not_next_token (List.cons_ne_nil _ _))

theorem next_symbol {s : Symbol} (h : Next (symbol s).language [] t) : t.value = .symbol s := by
  obtain ⟨rest, h⟩ := h
  obtain ⟨u, hu, hs⟩ := mem_language_symbol.mp h
  cases hu
  exact hs

theorem parted_seq (hp : (Grammar.seq g h).Predictive) (hg : g.Foresees) :
    Parted g.language h.language := hg.parted hp.2.2 fun _ => starts_of_next

theorem parted_many (hp : (Grammar.many g).Predictive) (hg : g.Foresees) :
    Parted g.language (Grammar.many g).language := hg.parted hp.2.2 fun _ => starts_of_next

/-- What follows an element of a list: a comma with the rest of the list, or nothing. -/
def afterElement (g : Grammar α) : Language (Located Token) :=
  (symbol .comma).language * (Grammar.list g).language + 1

theorem nil_mem_afterElement (g : Grammar α) : [] ∈ g.afterElement := mem_add.mpr (.inr rfl)

theorem nil_mem_list (g : Grammar α) : [] ∈ (Grammar.list g).language := ⟨[], Listed.nil⟩

theorem next_afterElement (h : Next g.afterElement [] t) : t.value = .symbol .comma := by
  have hmul := (next_add.mp h).resolve_right not_next_one
  have hnil : [] ∉ (symbol .comma).language := nil_notMem rfl
  have hsymbol : Next (symbol .comma).language [] t :=
    ((parted_symbol .comma _).next_left
      ⟨[⟨.symbol .comma, .point 0⟩], mem_language_symbol.mpr ⟨_, rfl, rfl⟩⟩ hnil
      (viable_of_mem g.nil_mem_list)).mp hmul
  exact next_symbol hsymbol

theorem parted_list (hp : (Grammar.list g).Predictive) (hg : g.Foresees) :
    Parted g.language g.afterElement := by
  refine hg.parted (p := fun t => t == .symbol .comma) (fun t ht => ?_) fun t ht => ?_
  · rw [beq_eq_false_iff_ne]
    rintro rfl
    rw [hp.2.2] at ht
    cases ht
  · exact beq_iff_eq.mpr (next_afterElement ht)

theorem Foresees.seq (hp : (Grammar.seq g h).Predictive) (hg : g.Foresees) (hh : h.Foresees) :
    (Grammar.seq g h).Foresees := by
  intro ts t hts hnext
  rw [language_seq] at hts hnext
  obtain ⟨us, hus, vs, hvs, rfl⟩ := Language.mem_mul.mp hts
  rcases ((parted_seq hp hg).next_right hus (viable_of_mem hvs)).mp hnext with hright | ⟨rfl, hleft⟩
  · simp [continues, hh vs t hvs hright]
  · obtain ⟨b, hb⟩ := hvs
    simp [continues, hb.starts.1 rfl, hg us t hus hleft]

theorem disjoint_either {g h : Grammar α} (hp : (Grammar.either g h).Predictive) :
    ∀ t, Next g.language [] t → ¬ Next h.language [] t := by
  intro t hg hh
  have hfalse := hp.2.2.2 t.value (starts_of_next hg)
  rw [starts_of_next hh] at hfalse
  cases hfalse

theorem Foresees.either {g h : Grammar α} (hp : (Grammar.either g h).Predictive) (hg : g.Foresees)
    (hh : h.Foresees) : (Grammar.either g h).Foresees := by
  have hparted := disjoint_either hp
  obtain ⟨-, -, ⟨hgn, hhn⟩, -⟩ := hp
  intro us t hus hnext
  rw [language_either] at hus hnext
  rcases mem_add.mp hus with hus | hus
  · have hne : us ≠ [] := fun hnil => nil_notMem hgn (hnil ▸ hus)
    have hout := not_viable_of_viable hparted hne (viable_of_mem hus)
    simp [continues, hg us t hus ((next_add_left hout).mp hnext)]
  · have hne : us ≠ [] := fun hnil => nil_notMem hhn (hnil ▸ hus)
    have hout := not_viable_of_viable (fun t hh hg => hparted t hg hh) hne (viable_of_mem hus)
    simp [continues, hh us t hus ((next_add_right hout).mp hnext)]

theorem Foresees.optional (hg : g.Foresees) : (Grammar.optional g).Foresees := by
  intro us t hus hnext
  rw [language_optional] at hus hnext
  have hnext := (next_add.mp hnext).resolve_right not_next_one
  rcases mem_add.mp hus with hus | rfl
  · simp [continues, hg us t hus hnext]
  · simp [continues, starts_of_next hnext]

theorem Foresees.many (hp : (Grammar.many g).Predictive) (hg : g.Foresees) :
    (Grammar.many g).Foresees := by
  intro us t hus hnext
  obtain ⟨as, has : Repeated g.Derives us as⟩ := hus
  induction has with
  | nil =>
    have hstarts := starts_of_next hnext
    rw [starts] at hstarts
    simp [continues, hstarts]
  | @cons us vs a as head tail ih =>
    rw [language_many] at hnext
    have hmul := (next_add.mp hnext).resolve_right not_next_one
    have hvs : vs ∈ (Grammar.many g).language := ⟨as, tail⟩
    rcases ((parted_many hp hg).next_right ⟨a, head⟩ (viable_of_mem hvs)).mp hmul with
      hright | ⟨rfl, hleft⟩
    · exact ih hright
    · simp [continues, hg us t ⟨a, head⟩ hleft]

theorem Foresees.list (hp : (Grammar.list g).Predictive) (hg : g.Foresees) :
    (Grammar.list g).Foresees := by
  -- after an element comes what can follow it, or the element goes on
  have helement : ∀ {us vs : Tokens} {t : Located Token}, us ∈ g.language →
      Viable g.afterElement vs → Next (Grammar.list g).language (us ++ vs) t →
      Next g.afterElement vs t ∨ vs = [] ∧ Next g.language us t := by
    intro us vs t hus hvs hnext
    rw [language_list] at hnext
    have hlist := (next_add.mp hnext).resolve_right not_next_one
    exact ((parted_list hp hg).next_right hus hvs).mp hlist
  intro us t hus hnext
  obtain ⟨as, has : Listed g.Derives us as⟩ := hus
  induction has with
  | nil =>
    have hstarts := starts_of_next hnext
    simp only [starts, hp.2.1, Bool.false_and, Bool.or_false] at hstarts
    simp [continues, hstarts]
  | @last us a head =>
    rw [← List.append_nil us] at hnext
    rcases helement ⟨a, head⟩ (viable_of_mem g.nil_mem_afterElement) hnext with hnext | ⟨-, hnext⟩
    · simp [continues, next_afterElement hnext]
    · simp [continues, hg us t ⟨a, head⟩ hnext]
  | @cons us vs separator a as head hcomma tail ih =>
    have hvs : vs ∈ (Grammar.list g).language := ⟨as, tail⟩
    have hseparator := mem_language_symbol.mpr ⟨separator, rfl, hcomma⟩
    have hafter : separator :: vs ∈ g.afterElement :=
      mem_add.mpr (.inl (Language.append_mem_mul hseparator hvs))
    rcases helement ⟨a, head⟩ (viable_of_mem hafter) hnext with hnext | ⟨hnil, -⟩
    · have hmul := (next_add.mp hnext).resolve_right not_next_one
      rcases ((parted_symbol .comma _).next_right hseparator (viable_of_mem hvs)).mp hmul with
        hnext | ⟨-, hnext⟩
      · exact ih hnext
      · exact absurd hnext (not_next_token (List.cons_ne_nil _ _))
    · cases hnil

/-- A predictive grammar foresees how its sentences go on. -/
theorem Predictive.foresees {g : Grammar α} (hp : g.Predictive) : g.Foresees := by
  induction g with
  | token expected accept =>
    intro us t hus hnext
    obtain ⟨u, rfl, -⟩ := mem_language_token.mp hus
    exact absurd hnext (not_next_token (List.cons_ne_nil _ _))
  | seq g h ihg ihh => exact .seq hp (ihg hp.1) (ihh hp.2.1)
  | either g h ihg ihh => exact .either hp (ihg hp.1) (ihh hp.2.1)
  | optional g ih => exact (ih hp.1).optional
  | many g ih => exact .many hp (ih hp.1)
  | list g ih => exact .list hp (ih hp.1)
  | map f g ih =>
    intro us t hus hnext
    rw [language_map] at hus hnext
    exact ih hp us t hus hnext
  | located g ih =>
    intro us t hus hnext
    rw [language_located] at hus hnext
    exact ih hp us t hus hnext

end Grammar

end Source

end TensorLoops
