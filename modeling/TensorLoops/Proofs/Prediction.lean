import TensorLoops.Source.Grammar

namespace TensorLoops

namespace Source

theorem Repeated.append {α : Type} {derives : Tokens → α → Prop} {ts us : Tokens} {as bs : List α}
    (h : Repeated derives ts as) (h' : Repeated derives us bs) :
    Repeated derives (ts ++ us) (as ++ bs) := by
  induction h with
  | nil => exact h'
  | cons head _ ih =>
    rw [List.append_assoc]
    exact .cons head ih

namespace Grammar

/-- Whether nothing at all is derived. -/
def nullable : {α : Type} → Grammar α → Bool
  | _, .token _ _ => false
  | _, .seq g h => g.nullable && h.nullable
  | _, .either g h => g.nullable || h.nullable
  | _, .optional _ | _, .many _ | _, .list _ => true
  | _, .map _ g | _, .located g => g.nullable

/-- Whether a derivation can begin with the token. -/
def starts : {α : Type} → Grammar α → Token → Bool
  | _, .token _ accept, t => (accept t).isSome
  | _, .seq g h, t => g.starts t || (g.nullable && h.starts t)
  | _, .either g h, t => g.starts t || h.starts t
  | _, .list g, t => g.starts t || (g.nullable && t == .symbol .comma)
  | _, .optional g, t | _, .many g, t | _, .map _ g, t | _, .located g, t => g.starts t

/-- Whether a reader at the end of a derivation may go on with the token. -/
def continues : {α : Type} → Grammar α → Token → Bool
  | _, .token _ _, _ => false
  | _, .seq g h, t => h.continues t || (h.nullable && g.continues t)
  | _, .either g h, t => g.continues t || h.continues t
  | _, .optional g, t | _, .many g, t => g.starts t || g.continues t
  | _, .list g, t => g.starts t || g.continues t || t == .symbol .comma
  | _, .map _ g, t | _, .located g, t => g.continues t

/-- The next token decides how to read on. -/
def Predictive : {α : Type} → Grammar α → Prop
  | _, .token _ _ => True
  | _, .seq g h => g.Predictive ∧ h.Predictive ∧ ∀ t, g.continues t = true → h.starts t = false
  | _, .either g h => g.Predictive ∧ h.Predictive ∧ (g.nullable = false ∧ h.nullable = false) ∧
      ∀ t, g.starts t = true → h.starts t = false
  | _, .optional g => g.Predictive ∧ g.nullable = false
  | _, .many g => g.Predictive ∧ g.nullable = false ∧
      ∀ t, g.continues t = true → g.starts t = false
  | _, .list g => g.Predictive ∧ g.nullable = false ∧ g.continues (.symbol .comma) = false
  | _, .map _ g | _, .located g => g.Predictive

/-- The next token, if there is one, is none of `p`. -/
def Stops (p : Token → Bool) (rest : Tokens) : Prop := ∀ t ∈ rest.head?, p t.value = false

theorem stops_nil (p : Token → Bool) : Stops p [] := fun _ ht => nomatch ht

theorem stops_cons {p : Token → Bool} {t : Located Token} {rest : Tokens} :
    Stops p (t :: rest) ↔ p t.value = false := by
  simp [Stops]

theorem stops_or {p q : Token → Bool} {rest : Tokens} :
    Stops (fun t => p t || q t) rest ↔ Stops p rest ∧ Stops q rest := by
  cases rest with
  | nil => simp [stops_nil]
  | cons t rest => simp [stops_cons]

theorem not_stops_mono {p q : Token → Bool} {rest : Tokens} (hpq : ∀ t, p t = true → q t = true)
    (h : ¬ Stops p rest) : ¬ Stops q rest := by
  cases rest with
  | nil => exact absurd (stops_nil p) h
  | cons t rest => simpa [stops_cons] using hpq _ (by simpa [stops_cons] using h)

theorem stops_of_not_stops {p q : Token → Bool} {rest : Tokens}
    (hpq : ∀ t, p t = true → q t = false) (h : ¬ Stops p rest) : Stops q rest := by
  cases rest with
  | nil => exact stops_nil q
  | cons t rest => exact stops_cons.mpr (hpq _ (by simpa [stops_cons] using h))

theorem disjoint_symm {p q : Token → Bool} (h : ∀ t, p t = true → q t = false) :
    ∀ t, q t = true → p t = false := by
  intro t hq
  cases hp : p t with
  | false => rfl
  | true => exact absurd hq (by simp [h t hp])

variable {α β : Type}

/-- What is derived begins as it should. -/
theorem Derives.starts {g : Grammar α} {ts : Tokens} {a : α} (h : g.Derives ts a) :
    (ts = [] → g.nullable = true) ∧ ∀ t ∈ ts.head?, g.starts t.value = true := by
  induction g generalizing ts with
  | token expected accept =>
    obtain ⟨t, rfl, ha⟩ := h
    simp [Grammar.starts, ha]
  | seq g h ihg ihh =>
    obtain ⟨us, vs, rfl, hg, hh⟩ := h
    obtain ⟨hgn, hgs⟩ := ihg hg
    obtain ⟨hhn, hhs⟩ := ihh hh
    constructor
    · intro hnil
      obtain ⟨hus, hvs⟩ := List.append_eq_nil_iff.mp hnil
      simp [nullable, hgn hus, hhn hvs]
    · intro t ht
      cases us with
      | nil => simp [Grammar.starts, hgn rfl, hhs t ht]
      | cons u us => simp [Grammar.starts, hgs t ht]
  | either g h ihg ihh =>
    rcases h with h | h
    · obtain ⟨hn, hs⟩ := ihg h
      exact ⟨fun he => by simp [nullable, hn he], fun t ht => by simp [Grammar.starts, hs t ht]⟩
    · obtain ⟨hn, hs⟩ := ihh h
      exact ⟨fun he => by simp [nullable, hn he], fun t ht => by simp [Grammar.starts, hs t ht]⟩
  | optional g ih =>
    refine ⟨fun _ => rfl, fun t ht => ?_⟩
    cases a with
    | none =>
      cases show ts = [] from h
      cases ht
    | some a => exact (ih h).2 t ht
  | many g ih =>
    refine ⟨fun _ => rfl, fun t ht => ?_⟩
    induction (show Repeated g.Derives ts a from h) with
    | nil => cases ht
    | @cons us vs a as head tail ihtail =>
      cases us with
      | nil => exact ihtail tail ht
      | cons u us => exact (ih head).2 t ht
  | list g ih =>
    refine ⟨fun _ => rfl, fun t ht => ?_⟩
    cases (show Listed g.Derives ts a from h) with
    | nil => cases ht
    | last head => simp [Grammar.starts, (ih head).2 t ht]
    | @cons us vs separator a as head hcomma tail =>
      cases us with
      | nil =>
        cases ht
        simp [Grammar.starts, (ih head).1 rfl, hcomma]
      | cons u us => simp [Grammar.starts, (ih head).2 t ht]
  | map f g ih =>
    obtain ⟨a, ha, -⟩ := h
    exact ih ha
  | located g ih => exact ih h.1

theorem Derives.ne_nil {g : Grammar α} {ts : Tokens} {a : α} (h : g.Derives ts a)
    (hn : g.nullable = false) : ts ≠ [] := by
  intro hnil
  rw [h.starts.1 hnil] at hn
  cases hn

end Grammar

/-- Taking something leaves less. -/
theorem length_lt_of_append {taken rest ts : Tokens} (h : taken ++ rest = ts) (hne : taken ≠ []) :
    rest.length < ts.length := by
  have hpos := List.length_pos_iff.mpr hne
  rw [← h, List.length_append]
  omega

namespace Reader

variable {α β : Type}

/-- The reader takes `ts` when `rest` comes after it. -/
def Takes (r : Reader α) (ts rest : Tokens) (a : α) : Prop :=
  ∀ tried, ∃ tried', r tried (ts ++ rest) = .read a ts rest tried'

/-- The reader takes nothing. -/
def Refuses (r : Reader α) (ts : Tokens) : Prop :=
  ∀ tried, ∃ tried', r tried ts = .stuck [] ts tried'

variable {r : Reader α} {s : Reader β} {ts us vs rest : Tokens} {a : α} {b : β} {as : List α}

theorem Takes.seq (hr : r.Takes us (vs ++ rest) a) (hs : s.Takes vs rest b) :
    (r.seq s).Takes (us ++ vs) rest (a, b) := by
  intro tried
  obtain ⟨tried₁, h₁⟩ := hr tried
  obtain ⟨tried₂, h₂⟩ := hs tried₁
  refine ⟨tried₂, ?_⟩
  rw [List.append_assoc]
  simp only [Reader.seq, h₁, h₂, Reading.following]

theorem Refuses.seq_left (hr : r.Refuses ts) (s : Reader β) : (r.seq s).Refuses ts := by
  intro tried
  obtain ⟨tried₁, h₁⟩ := hr tried
  exact ⟨tried₁, by simp only [Reader.seq, h₁]⟩

theorem Refuses.seq_right (hr : r.Takes [] ts a) (hs : s.Refuses ts) : (r.seq s).Refuses ts := by
  intro tried
  obtain ⟨tried₁, h₁⟩ := hr tried
  obtain ⟨tried₂, h₂⟩ := hs tried₁
  rw [List.nil_append] at h₁
  exact ⟨tried₂, by simp only [Reader.seq, h₁, h₂, Reading.following, List.nil_append]⟩

theorem Takes.either_left (hr : r.Takes ts rest a) (s : Reader α) :
    (r.either s).Takes ts rest a := by
  intro tried
  obtain ⟨tried₁, h₁⟩ := hr tried
  exact ⟨tried₁, by simp only [Reader.either, h₁]⟩

theorem Takes.either_right {s : Reader α} (hr : r.Refuses (ts ++ rest))
    (hs : s.Takes ts rest a) : (r.either s).Takes ts rest a := by
  intro tried
  obtain ⟨tried₁, h₁⟩ := hr tried
  obtain ⟨tried₂, h₂⟩ := hs tried₁
  exact ⟨tried₂, by simp only [Reader.either, h₁, h₂]⟩

theorem Refuses.either {s : Reader α} (hr : r.Refuses ts) (hs : s.Refuses ts) :
    (r.either s).Refuses ts := by
  intro tried
  obtain ⟨tried₁, h₁⟩ := hr tried
  obtain ⟨tried₂, h₂⟩ := hs tried₁
  exact ⟨tried₂, by simp only [Reader.either, h₁, h₂]⟩

theorem Takes.optional (hr : r.Takes ts rest a) : r.optional.Takes ts rest (some a) := by
  intro tried
  obtain ⟨tried₁, h₁⟩ := hr tried
  exact ⟨tried₁, by simp only [Reader.optional, h₁]⟩

theorem Refuses.optional (hr : r.Refuses rest) : r.optional.Takes [] rest none := by
  intro tried
  obtain ⟨tried₁, h₁⟩ := hr tried
  exact ⟨tried₁, by simp only [Reader.optional, List.nil_append, h₁]⟩

theorem Refuses.many (hr : r.Refuses rest) : Takes (Reader.many r) [] rest [] := by
  intro tried
  obtain ⟨tried₁, h₁⟩ := hr tried
  refine ⟨tried₁, ?_⟩
  unfold Reader.many
  simp only [List.nil_append, h₁]

theorem Takes.many (hr : r.Takes us (vs ++ rest) a) (hne : us ≠ [])
    (hs : Takes (Reader.many r) vs rest as) :
    Takes (Reader.many r) (us ++ vs) rest (a :: as) := by
  intro tried
  obtain ⟨tried₁, h₁⟩ := hr tried
  obtain ⟨tried₂, h₂⟩ := hs tried₁
  refine ⟨tried₂, ?_⟩
  have hlt : (vs ++ rest).length < (us ++ (vs ++ rest)).length := length_lt_of_append rfl hne
  unfold Reader.many
  simp only [List.append_assoc, h₁, hlt, if_true, h₂, Reading.following]

theorem Refuses.list (hr : r.Refuses rest) : Takes (Reader.list r) [] rest [] := by
  intro tried
  obtain ⟨tried₁, h₁⟩ := hr tried
  refine ⟨tried₁, ?_⟩
  unfold Reader.list
  simp only [List.nil_append, h₁]

theorem Takes.list_last (hr : r.Takes ts rest a) (hc : comma.Refuses rest) :
    Takes (Reader.list r) ts rest [a] := by
  intro tried
  obtain ⟨tried₁, h₁⟩ := hr tried
  obtain ⟨tried₂, h₂⟩ := hc tried₁
  refine ⟨tried₂, ?_⟩
  unfold Reader.list
  simp only [h₁, h₂]

theorem Takes.list {separator : Located Token} (hcomma : separator.value = .symbol .comma)
    (hr : r.Takes us (separator :: vs ++ rest) a) (hs : Takes (Reader.list r) vs rest as) :
    Takes (Reader.list r) (us ++ separator :: vs) rest (a :: as) := by
  intro tried
  obtain ⟨tried₁, h₁⟩ := hr tried
  have h₂ : comma tried₁ (separator :: vs ++ rest) = .read () [separator] (vs ++ rest) [] := by
    simp [comma, token, hcomma]
  obtain ⟨tried₃, h₃⟩ := hs []
  refine ⟨tried₃, ?_⟩
  have hlt : (vs ++ rest).length < (us ++ (separator :: vs ++ rest)).length := by
    simp only [List.cons_append, List.length_append, List.length_cons]
    omega
  unfold Reader.list
  simp only [List.append_assoc, h₁, h₂, hlt, if_true, h₃, Reading.following]
  simp

theorem Takes.map (hr : r.Takes ts rest a) (f : α → β) : (r.map f).Takes ts rest (f a) := by
  intro tried
  obtain ⟨tried₁, h₁⟩ := hr tried
  exact ⟨tried₁, by simp only [Reader.map, h₁, Reading.map]⟩

theorem Refuses.map (hr : r.Refuses ts) (f : α → β) : (r.map f).Refuses ts := by
  intro tried
  obtain ⟨tried₁, h₁⟩ := hr tried
  exact ⟨tried₁, by simp only [Reader.map, h₁, Reading.map]⟩

theorem Takes.located (hr : r.Takes ts rest a) : r.located.Takes ts rest ⟨a, cover ts⟩ := by
  intro tried
  obtain ⟨tried₁, h₁⟩ := hr tried
  exact ⟨tried₁, by simp only [Reader.located, h₁]⟩

theorem Refuses.located (hr : r.Refuses ts) : r.located.Refuses ts := by
  intro tried
  obtain ⟨tried₁, h₁⟩ := hr tried
  exact ⟨tried₁, by simp only [Reader.located, h₁]⟩

theorem refuses_token {expected : Expected} {accept : Token → Option α}
    (h : ∀ t ∈ ts.head?, accept t.value = none) : (token expected accept).Refuses ts := by
  intro tried
  cases ts with
  | nil => exact ⟨_, rfl⟩
  | cons t ts => exact ⟨tried ++ [expected], by simp only [token, h t rfl]⟩

end Reader

namespace Grammar

variable {α : Type}

/-- Before a token that cannot begin a derivation the reader takes nothing. -/
theorem takes_nothing {g : Grammar α} (hp : g.Predictive) {rest : Tokens}
    (hrest : Stops g.starts rest) :
    (g.nullable = true → ∃ a, g.reader.Takes [] rest a) ∧
      (g.nullable = false → g.reader.Refuses rest) := by
  induction g with
  | token expected accept =>
    refine ⟨(nomatch ·), fun _ => Reader.refuses_token fun t ht => ?_⟩
    simpa [Grammar.starts] using hrest t ht
  | seq g h ihg ihh =>
    obtain ⟨hg, hh, -⟩ := hp
    obtain ⟨hgs, hhs⟩ := stops_or.mp hrest
    obtain ⟨hgn, hgr⟩ := ihg hg hgs
    cases hn : g.nullable with
    | false => exact ⟨by simp [nullable, hn], fun _ => (hgr hn).seq_left _⟩
    | true =>
      obtain ⟨a, ha⟩ := hgn hn
      have hhs : Stops h.starts rest := by simpa [hn] using hhs
      obtain ⟨hhn, hhr⟩ := ihh hh hhs
      constructor
      · intro hnull
        simp only [nullable, hn, Bool.true_and] at hnull
        obtain ⟨b, hb⟩ := hhn hnull
        have hab : (g.reader.seq h.reader).Takes ([] ++ []) rest (a, b) := ha.seq hb
        exact ⟨(a, b), hab⟩
      · intro hnull
        simp only [nullable, hn, Bool.true_and] at hnull
        exact .seq_right ha (hhr hnull)
  | either g h ihg ihh =>
    obtain ⟨hg, hh, ⟨hgn, hhn⟩, -⟩ := hp
    obtain ⟨hgs, hhs⟩ := stops_or.mp hrest
    exact ⟨by simp [nullable, hgn, hhn], fun _ => ((ihg hg hgs).2 hgn).either ((ihh hh hhs).2 hhn)⟩
  | optional g ih =>
    exact ⟨fun _ => ⟨none, ((ih hp.1 hrest).2 hp.2).optional⟩, (nomatch ·)⟩
  | many g ih =>
    exact ⟨fun _ => ⟨[], ((ih hp.1 hrest).2 hp.2.1).many⟩, (nomatch ·)⟩
  | list g ih =>
    exact ⟨fun _ => ⟨[], ((ih hp.1 (stops_or.mp hrest).1).2 hp.2.1).list⟩, (nomatch ·)⟩
  | map f g ih =>
    obtain ⟨hn, hr⟩ := ih hp hrest
    refine ⟨fun h => ?_, fun h => (hr h).map f⟩
    obtain ⟨a, ha⟩ := hn h
    exact ⟨f a, ha.map f⟩
  | located g ih =>
    obtain ⟨hn, hr⟩ := ih hp hrest
    refine ⟨fun h => ?_, fun h => (hr h).located⟩
    obtain ⟨a, ha⟩ := hn h
    exact ⟨⟨a, cover []⟩, ha.located⟩

/-- A derivation with something after it begins as the derivation does, if that is not empty. -/
theorem Derives.stops_append {g : Grammar α} {ts rest : Tokens} {a : α} (h : g.Derives ts a)
    {p : Token → Bool} (hp : ∀ t, g.starts t = true → p t = false)
    (hrest : ts = [] → Stops p rest) : Stops p (ts ++ rest) := by
  cases ts with
  | nil => exact hrest rfl
  | cons t ts => exact stops_cons.mpr (hp _ (h.starts.2 t rfl))

theorem takes_of_repeated {g : Grammar α} (hp : g.Predictive) (hn : g.nullable = false)
    (hc : ∀ t, g.continues t = true → g.starts t = false)
    (ih : ∀ {ts rest : Tokens} {a : α}, g.Derives ts a → Stops g.continues rest →
      g.reader.Takes ts rest a)
    {ts rest : Tokens} {as : List α} (h : Repeated g.Derives ts as)
    (hrest : Stops (Grammar.many g).continues rest) :
    Reader.Takes (Reader.many g.reader) ts rest as := by
  obtain ⟨hstarts, hcont⟩ := stops_or.mp hrest
  induction h with
  | nil => exact ((takes_nothing hp hstarts).2 hn).many
  | @cons us vs a as head tail ihtail =>
    have hmany : (Grammar.many g).Derives vs as := tail
    have hnext := hmany.stops_append (disjoint_symm hc) fun _ => hcont
    exact Reader.Takes.many (ih head hnext) (head.ne_nil hn) ihtail

theorem takes_of_listed {g : Grammar α} (hp : g.Predictive) (hn : g.nullable = false)
    (hc : g.continues (.symbol .comma) = false)
    (ih : ∀ {ts rest : Tokens} {a : α}, g.Derives ts a → Stops g.continues rest →
      g.reader.Takes ts rest a)
    {ts rest : Tokens} {as : List α} (h : Listed g.Derives ts as)
    (hrest : Stops (Grammar.list g).continues rest) :
    Reader.Takes (Reader.list g.reader) ts rest as := by
  obtain ⟨hboth, hcomma⟩ := stops_or.mp hrest
  obtain ⟨hstarts, hcont⟩ := stops_or.mp hboth
  induction h with
  | nil => exact ((takes_nothing hp hstarts).2 hn).list
  | last head =>
    refine (ih head hcont).list_last (Reader.refuses_token fun t ht => ?_)
    have hne : t.value ≠ .symbol .comma := by simpa using hcomma t ht
    simp [hne]
  | cons head separator tail ihtail =>
    refine Reader.Takes.list separator (ih head (stops_cons.mpr ?_)) ihtail
    rw [separator]
    exact hc

/-- The reader of a predictive grammar takes what is derived, if the token after it cannot go on
with it. -/
theorem reader_complete {g : Grammar α} (hp : g.Predictive) {ts rest : Tokens} {a : α}
    (h : g.Derives ts a) (hrest : Stops g.continues rest) : g.reader.Takes ts rest a := by
  induction g generalizing ts rest with
  | token expected accept =>
    obtain ⟨t, rfl, ha⟩ := h
    intro tried
    exact ⟨[], by simp [reader, Reader.token, ha]⟩
  | seq g h ihg ihh =>
    obtain ⟨us, vs, rfl, hg, hh⟩ := h
    obtain ⟨hpg, hph, hc⟩ := hp
    obtain ⟨hhc, hgc⟩ := stops_or.mp hrest
    refine (ihg hpg hg (hh.stops_append (disjoint_symm hc) fun hnil => ?_)).seq (ihh hph hh hhc)
    simpa [hh.starts.1 hnil] using hgc
  | either g h ihg ihh =>
    obtain ⟨hpg, hph, ⟨hgn, hhn⟩, hdisjoint⟩ := hp
    obtain ⟨hgc, hhc⟩ := stops_or.mp hrest
    rcases h with h | h
    · exact (ihg hpg h hgc).either_left _
    · have hstops : Stops g.starts (ts ++ rest) :=
        h.stops_append (disjoint_symm hdisjoint) fun hnil => absurd hnil (h.ne_nil hhn)
      exact .either_right ((takes_nothing hpg hstops).2 hgn) (ihh hph h hhc)
  | optional g ih =>
    obtain ⟨hstarts, hcont⟩ := stops_or.mp hrest
    cases a with
    | none =>
      cases show ts = [] from h
      exact ((takes_nothing hp.1 hstarts).2 hp.2).optional
    | some a => exact (ih hp.1 h hcont).optional
  | many g ih => exact takes_of_repeated hp.1 hp.2.1 hp.2.2 (ih hp.1) h hrest
  | list g ih => exact takes_of_listed hp.1 hp.2.1 hp.2.2 (ih hp.1) h hrest
  | map f g ih =>
    obtain ⟨a, ha, rfl⟩ := h
    exact (ih hp ha hrest).map f
  | located g ih =>
    obtain ⟨value, span⟩ := a
    obtain ⟨ha, rfl⟩ := h
    exact (ih hp ha hrest).located

end Grammar

end Source

end TensorLoops
