import TensorLoops.Proofs.Backtracking
import TensorLoops.Proofs.Continuations

namespace TensorLoops

namespace Source

/-- How messages call a token that could come. -/
def Expected.of : Token → Expected
  | .keyword .entry | .keyword .exit | .keyword .input | .keyword .output => .something
  | .symbol .question | .number _ | .value _ => .something
  | .ident _ => .identifier
  | .keyword k => .exactly (.keyword k)
  | .symbol s => .exactly (.symbol s)

/-- Some token that messages call `e` can follow `ts`. -/
def Expects (L : Language (Located Token)) (ts : Tokens) (e : Expected) : Prop :=
  ∃ t, Next L ts t ∧ Expected.of t.value = e

/-- Reading `ts` as a sentence of `L` has taken what can begin one and stands before a token that
cannot come next; it is `done` if a sentence is complete there. It has tried what can come there,
and what was tried `before` still counts if nothing is taken. -/
structure Reached (L : Language (Located Token)) (before : List Expected) (ts taken rest : Tokens)
    (tried : List Expected) (done : Prop) : Prop where
  split : taken ++ rest = ts
  viable : Viable L taken
  complete : done ↔ taken ∈ L
  stops : ∀ t ∈ rest.head?, ¬ Next L taken t
  tried : ∀ e, e ∈ tried ↔ (taken = [] ∧ e ∈ before) ∨ Expects L taken e

variable {α β : Type} {L M : Language (Located Token)} {us vs ts taken rest : Tokens}
  {t : Located Token} {before tried tried' : List Expected} {e : Expected} {done : Prop}

theorem expects_congr (h : ∀ t, Next L us t ↔ Next M vs t) : Expects L us e ↔ Expects M vs e :=
  exists_congr fun t => and_congr_left fun _ => h t

theorem expects_add : Expects (L + M) ts e ↔ Expects L ts e ∨ Expects M ts e := by
  simp only [Expects, next_add, or_and_right, exists_or]

theorem not_viable_one (hne : us ≠ []) : ¬ Viable 1 us := by
  intro h
  obtain ⟨rest, h⟩ := h
  exact hne (List.append_eq_nil_iff.mp ((Language.mem_one _).mp h)).1

theorem not_expects_one : ¬ Expects 1 ts e := by
  intro h
  obtain ⟨t, ht, -⟩ := h
  exact not_next_one ht

/-- Nothing has to be taken. -/
theorem reached_nothing (before : List Expected) (ts : Tokens) :
    Reached 1 before ts [] ts before True where
  split := rfl
  viable := viable_of_mem rfl
  complete := iff_of_true trivial rfl
  stops _ _ := not_next_one
  tried e := by simp [not_expects_one]

/-- The first alternative has begun. -/
theorem Reached.left (h : Reached L before ts taken rest tried done) (hM : ¬ Viable M taken) :
    Reached (L + M) before ts taken rest tried done where
  split := h.split
  viable := viable_add.mpr (.inl h.viable)
  complete := by
    rw [mem_add, or_iff_left fun hmem => hM (viable_of_mem hmem)]
    exact h.complete
  stops t ht := by
    rw [next_add_left hM]
    exact h.stops t ht
  tried e := by rw [h.tried e, expects_congr fun t => next_add_left hM]

/-- The first alternative has not begun, and the second one was tried. -/
theorem Reached.right (hL : Reached L before ts [] ts tried False)
    (hM : Reached M tried ts taken rest tried' done) :
    Reached (L + M) before ts taken rest tried' done := by
  cases taken with
  | nil =>
    obtain rfl : rest = ts := hM.split
    refine ⟨rfl, viable_add.mpr (.inr hM.viable), ?_, fun t ht => ?_, fun e => ?_⟩
    · rw [mem_add, or_iff_right hL.complete.mpr]
      exact hM.complete
    · rw [next_add]
      exact not_or.mpr ⟨hL.stops t ht, hM.stops t ht⟩
    · rw [hM.tried e, hL.tried e, expects_add]
      simp only [true_and, or_assoc]
  | cons u us =>
    have hout : ¬ Viable L (u :: us) := by
      intro hviable
      refine hL.stops u ?_ (next_of_viable_cons hviable)
      simp [← hM.split]
    refine ⟨hM.split, viable_add.mpr (.inr hM.viable), ?_, fun t ht => ?_, fun e => ?_⟩
    · rw [mem_add, or_iff_right fun hmem => hout (viable_of_mem hmem)]
      exact hM.complete
    · rw [next_add_right hout]
      exact hM.stops t ht
    · rw [hM.tried e, expects_congr fun t => next_add_right hout]
      simp

/-- The first part is not complete. -/
theorem Reached.seq_left (h : Reached L before ts taken rest tried False) (hparted : Parted L M)
    (hM : Viable M []) : Reached (L * M) before ts taken rest tried False where
  split := h.split
  viable := viable_mul_left h.viable hM
  complete := iff_of_false id (hparted.notMem_left h.viable h.complete.mpr)
  stops t ht := by
    rw [hparted.next_left h.viable h.complete.mpr hM]
    exact h.stops t ht
  tried e := by
    rw [h.tried e, expects_congr fun t => hparted.next_left h.viable h.complete.mpr hM]

/-- The first part is complete, and the second one was tried. -/
theorem Reached.seq_right (hL : Reached L before ts us vs tried True) (hparted : Parted L M)
    (hM : Reached M tried vs taken rest tried' done) :
    Reached (L * M) before ts (us ++ taken) rest tried' done := by
  have hus : us ∈ L := hL.complete.mp trivial
  have hnext := fun t => hparted.next_right (t := t) hus hM.viable
  refine ⟨?_, viable_mul_right hus hM.viable, ?_, fun t ht => ?_, fun e => ?_⟩
  · rw [List.append_assoc, hM.split, hL.split]
  · rw [hparted.mem_right hus hM.viable]
    exact hM.complete
  · rw [hnext]
    refine not_or.mpr ⟨hM.stops t ht, fun h => ?_⟩
    obtain ⟨rfl, hleft⟩ := h
    obtain rfl : rest = vs := hM.split
    exact hL.stops t ht hleft
  · have hexpects : Expects (L * M) (us ++ taken) e ↔
        Expects M taken e ∨ taken = [] ∧ Expects L us e := by
      simp only [Expects, hnext, or_and_right, exists_or, and_assoc, exists_and_left]
    rw [hM.tried e, hL.tried e, hexpects, List.append_eq_nil_iff]
    tauto

namespace Reading

/-- Reading has reached the place where a sentence cannot go on, and succeeds if one is complete
there. -/
def Exact (L : Language (Located Token)) (before : List Expected) (ts : Tokens) : Reading α → Prop
  | read _ taken rest tried => Reached L before ts taken rest tried True
  | stuck taken rest tried => Reached L before ts taken rest tried False

theorem following_following {γ : Type} (x : Reading α) (us vs : Tokens) (f : α → β) (f' : β → γ) :
    (x.following vs f).following us f' = x.following (us ++ vs) (f' ∘ f) := by
  cases x <;> simp [following]

theorem Exact.following (hL : Reached L before ts us vs tried True) (hparted : Parted L M)
    {y : Reading α} (hy : y.Exact M tried vs) (f : α → β) :
    (y.following us f).Exact (L * M) before ts := by
  cases y with
  | read b taken rest tried' => exact hL.seq_right hparted hy
  | stuck taken rest tried' => exact hL.seq_right hparted hy

/-- What has begun is not left out. -/
theorem Exact.orNothing {y : Reading α} {f : α → β} (hus : us ≠ [])
    (h : (y.following us f).Exact L before ts) : (y.following us f).Exact (L + 1) before ts := by
  have hne : ∀ taken, us ++ taken ≠ [] := fun _ => List.append_ne_nil_of_left_ne_nil hus _
  cases y with
  | read b taken rest tried' => exact h.left (not_viable_one (hne taken))
  | stuck taken rest tried' => exact h.left (not_viable_one (hne taken))

end Reading

namespace Reader

/-- Wherever it is put to work, the reader reads exactly. -/
def Exact (r : Reader α) (L : Language (Located Token)) : Prop :=
  ∀ before ts, (r before ts).Exact L before ts

variable {r : Reader α} {s : Reader β}

theorem Exact.read (hr : r.Exact L) {a : α} (h : r before ts = .read a taken rest tried) :
    Reached L before ts taken rest tried True := by
  have := hr before ts
  rwa [h] at this

theorem Exact.stuck (hr : r.Exact L) (h : r before ts = .stuck taken rest tried) :
    Reached L before ts taken rest tried False := by
  have := hr before ts
  rwa [h] at this

/-- A reader that is stuck before it has taken anything leaves all tokens. -/
theorem Exact.stuck_nil (hr : r.Exact L) (h : r before ts = .stuck [] rest tried) :
    Reached L before ts [] ts tried False := by
  obtain rfl : rest = ts := (hr.stuck h).split
  exact hr.stuck h

theorem Exact.read_ne_nil (hr : r.Exact L) (hL : [] ∉ L) {a : α}
    (h : r before ts = .read a taken rest tried) : taken ≠ [] := by
  rintro rfl
  exact hL ((hr.read h).complete.mp trivial)

theorem exact_token {expected : Expected} {accept : Token → Option α}
    (hexists : ∃ t, (accept t).isSome = true)
    (hnamed : ∀ t, (accept t).isSome = true → Expected.of t = expected) :
    (token expected accept).Exact (Grammar.token expected accept).language := by
  intro before ts
  obtain ⟨u, hu⟩ := hexists
  -- at the beginning exactly the accepted tokens can come
  have hnext : ∀ t, Next (Grammar.token expected accept).language [] t ↔
      (accept t.value).isSome = true := by
    intro t
    constructor
    · exact Grammar.starts_of_next
    · exact fun ht => ⟨[], Grammar.mem_language_token.mpr ⟨t, rfl, ht⟩⟩
  have hviable : Viable (Grammar.token expected accept).language [] :=
    ((hnext ⟨u, .point 0⟩).mpr hu).viable
  have hexpects : ∀ e, Expects (Grammar.token expected accept).language [] e ↔ e = expected := by
    intro e
    constructor
    · intro h
      obtain ⟨t, ht, rfl⟩ := h
      exact hnamed t.value ((hnext t).mp ht)
    · intro h
      exact ⟨⟨u, .point 0⟩, (hnext _).mpr hu, h ▸ hnamed u hu⟩
  have hout : False ↔ [] ∈ (Grammar.token expected accept).language :=
    iff_of_false id (Grammar.nil_notMem rfl)
  cases ts with
  | nil =>
    refine ⟨rfl, hviable, hout, fun _ ht => (nomatch ht), fun e => ?_⟩
    simp [hexpects]
  | cons t ts =>
    dsimp only [token]
    cases ha : accept t.value with
    | none =>
      refine ⟨rfl, hviable, hout, fun v hv => ?_, fun e => ?_⟩
      · cases hv
        simp [hnext, ha]
      · simp [hexpects]
    | some a =>
      have hmem : [t] ∈ (Grammar.token expected accept).language :=
        Grammar.mem_language_token.mpr ⟨t, rfl, by rw [ha]; rfl⟩
      have hstops : ∀ v, ¬ Next (Grammar.token expected accept).language [t] v :=
        fun v => Grammar.not_next_token (List.cons_ne_nil _ _)
      exact ⟨rfl, viable_of_mem hmem, iff_of_true trivial hmem, fun v _ => hstops v,
        fun e => by simp [Expects, hstops]⟩

theorem Exact.seq (hr : r.Exact L) (hs : s.Exact M) (hparted : Parted L M) (hM : Viable M []) :
    (r.seq s).Exact (L * M) := by
  intro before ts
  unfold Reader.seq
  cases hfirst : r before ts with
  | stuck us vs tried => exact (hr.stuck hfirst).seq_left hparted hM
  | read a us vs tried => exact Reading.Exact.following (hr.read hfirst) hparted (hs tried vs) _

theorem Exact.either {s : Reader α} (hr : r.Exact L) (hs : s.Exact M) (hL : [] ∉ L)
    (hdisjoint : ∀ t, Next L [] t → ¬ Next M [] t) : (r.either s).Exact (L + M) := by
  intro before ts
  unfold Reader.either
  split
  · rename_i a taken rest tried hfirst
    have hreached := hr.read hfirst
    exact hreached.left (not_viable_of_viable hdisjoint (hr.read_ne_nil hL hfirst) hreached.viable)
  · rename_i rest tried hfirst
    have hreached := hr.stuck_nil hfirst
    cases hsecond : s tried ts with
    | read a taken rest' tried' => exact hreached.right (hs.read hsecond)
    | stuck taken rest' tried' => exact hreached.right (hs.stuck hsecond)
  · rename_i taken rest tried hne hfirst
    have hreached := hr.stuck hfirst
    exact hreached.left (not_viable_of_viable hdisjoint hne hreached.viable)

theorem Exact.optional (hr : r.Exact L) (hL : [] ∉ L) : r.optional.Exact (L + 1) := by
  intro before ts
  unfold Reader.optional
  split
  · rename_i a taken rest tried hfirst
    exact (hr.read hfirst).left (not_viable_one (hr.read_ne_nil hL hfirst))
  · rename_i rest tried hfirst
    exact (hr.stuck_nil hfirst).right (reached_nothing tried ts)
  · rename_i taken rest tried hne hfirst
    exact (hr.stuck hfirst).left (not_viable_one hne)

/-- A sequence is read element by element. -/
theorem Exact.many (hr : r.Exact L) (hL : [] ∉ L) (hM : M = L * M + 1) (hparted : Parted L M) :
    Exact (Reader.many r) M := by
  have hnil : Viable M [] := by
    rw [hM]
    exact viable_of_mem (mem_add.mpr (.inr rfl))
  intro before ts
  rw [hM]
  fun_induction Reader.many r before ts with
  | case1 before ts a us vs tried hfirst hlt ih =>
    rw [← hM] at ih
    exact (Reading.Exact.following (hr.read hfirst) hparted ih _).orNothing
      (hr.read_ne_nil hL hfirst)
  | case2 before ts a us vs tried hfirst hlt =>
    exact absurd (length_lt_of_append (hr.read hfirst).split (hr.read_ne_nil hL hfirst)) hlt
  | case3 before ts rest tried hfirst =>
    exact ((hr.stuck_nil hfirst).seq_left hparted hnil).right (reached_nothing tried ts)
  | case4 before ts taken rest tried hne hfirst =>
    exact ((hr.stuck hfirst).seq_left hparted hnil).left (not_viable_one hne)

/-- A list is read element by element, with the commas in between. -/
theorem Exact.list {C : Language (Located Token)} (hr : r.Exact L) (hL : [] ∉ L)
    (hC : comma.Exact C) (hcomma : [] ∉ C) (hM : M = L * (C * M + 1) + 1)
    (helement : Parted L (C * M + 1)) (hseparator : Parted C M) : Exact (Reader.list r) M := by
  have hnil : Viable M [] := by
    rw [hM]
    exact viable_of_mem (mem_add.mpr (.inr rfl))
  have hafter : Viable (C * M + 1) [] := viable_of_mem (mem_add.mpr (.inr rfl))
  intro before ts
  fun_induction Reader.list r before ts with
  | case1 before ts a us vs tried hfirst separator rest tried' hseparated hlt ih =>
    have htail := (ih.following (hC.read hseparated) hseparator id).orNothing
      (hC.read_ne_nil hcomma hseparated)
    have hlist := (htail.following (hr.read hfirst) helement (a :: ·)).orNothing
      (hr.read_ne_nil hL hfirst)
    rw [← hM, Reading.following_following] at hlist
    exact hlist
  | case2 before ts a us vs tried hfirst separator rest tried' hseparated hlt =>
    have hlength := length_lt_of_append (hr.read hfirst).split (hr.read_ne_nil hL hfirst)
    have hlength' :=
      length_lt_of_append (hC.read hseparated).split (hC.read_ne_nil hcomma hseparated)
    exact absurd (hlength'.trans hlength) hlt
  | case3 before ts a us vs tried hfirst taken rest tried' hstuck =>
    rw [hM]
    obtain ⟨t, rest', hread⟩ | ⟨tried'', hstuck'⟩ := comma_cases tried vs
    · cases hstuck.symm.trans hread
    · cases hstuck.symm.trans hstuck'
      have hnone := (hC.stuck_nil hstuck).seq_left hseparator hnil
      have hend := hnone.right (reached_nothing tried' vs)
      have hlast := (hr.read hfirst).seq_right helement hend
      rw [List.append_nil] at hlast
      exact hlast.left (not_viable_one (hr.read_ne_nil hL hfirst))
  | case4 before ts rest tried hfirst =>
    rw [hM]
    exact ((hr.stuck_nil hfirst).seq_left helement hafter).right (reached_nothing tried ts)
  | case5 before ts taken rest tried hne hfirst =>
    rw [hM]
    exact ((hr.stuck hfirst).seq_left helement hafter).left (not_viable_one hne)

theorem Exact.map (hr : r.Exact L) (f : α → β) : (r.map f).Exact L := by
  intro before ts
  unfold Reader.map
  cases hfirst : r before ts with
  | read a taken rest tried => exact hr.read hfirst
  | stuck taken rest tried => exact hr.stuck hfirst

theorem Exact.located (hr : r.Exact L) : r.located.Exact L := by
  intro before ts
  unfold Reader.located
  cases hfirst : r before ts with
  | read a taken rest tried => exact hr.read hfirst
  | stuck taken rest tried => exact hr.stuck hfirst

end Reader

namespace Grammar

/-- Each token of the grammar exists, and messages call it what the grammar expects there. -/
def Named : {α : Type} → Grammar α → Prop
  | _, .token expected accept => (∃ t, (accept t).isSome = true) ∧
      ∀ t, (accept t).isSome = true → Expected.of t = expected
  | _, .seq g h => g.Named ∧ h.Named
  | _, .either g h => g.Named ∧ h.Named
  | _, .optional g | _, .many g | _, .list g | _, .map _ g | _, .located g => g.Named

/-- A token of its own is called by itself. -/
theorem named_exactly {t : Token} (h : Expected.of t = .exactly t) : (exactly t).Named := by
  refine ⟨⟨t, by simp⟩, fun u hu => ?_⟩
  by_cases hut : u = t
  · rw [hut, h]
  · simp [hut] at hu

/-- Something can be derived. -/
theorem Named.viable_nil {g : Grammar α} (hn : g.Named) : Viable g.language [] := by
  induction g with
  | token expected accept =>
    obtain ⟨t, ht⟩ := hn.1
    exact ⟨[⟨t, .point 0⟩], mem_language_token.mpr ⟨_, rfl, ht⟩⟩
  | seq g h ihg ihh =>
    rw [language_seq]
    exact viable_mul_left (ihg hn.1) (ihh hn.2)
  | either g h ihg ihh =>
    rw [language_either]
    exact viable_add.mpr (.inl (ihg hn.1))
  | optional g ih => exact viable_of_mem ⟨none, rfl⟩
  | many g ih => exact viable_of_mem ⟨[], Repeated.nil⟩
  | list g ih => exact viable_of_mem ⟨[], Listed.nil⟩
  | map f g ih =>
    rw [language_map]
    exact ih hn
  | located g ih =>
    rw [language_located]
    exact ih hn

/-- The reader of a predictive grammar reads exactly. -/
theorem exact_reader {g : Grammar α} (hp : g.Predictive) (hn : g.Named) :
    g.reader.Exact g.language := by
  induction g with
  | token expected accept => exact Reader.exact_token hn.1 hn.2
  | seq g h ihg ihh =>
    rw [language_seq]
    exact (ihg hp.1 hn.1).seq (ihh hp.2.1 hn.2) (parted_seq hp hp.1.foresees) hn.2.viable_nil
  | either g h ihg ihh =>
    rw [language_either]
    exact (ihg hp.1 hn.1).either (ihh hp.2.1 hn.2) (nil_notMem hp.2.2.1.1) (disjoint_either hp)
  | optional g ih =>
    rw [language_optional]
    exact (ih hp.1 hn).optional (nil_notMem hp.2)
  | many g ih =>
    exact (ih hp.1 hn).many (nil_notMem hp.2.1) (language_many g) (parted_many hp hp.1.foresees)
  | list g ih =>
    have hnamed := named_exactly (t := .symbol .comma) rfl
    have hcomma : Reader.comma.Exact (symbol .comma).language :=
      Reader.exact_token hnamed.1 hnamed.2
    exact (ih hp.1 hn).list (nil_notMem hp.2.1) hcomma (nil_notMem rfl) (language_list g)
      (parted_list hp hp.1.foresees) (parted_symbol .comma _)
  | map f g ih =>
    rw [language_map]
    exact (ih hp hn).map f
  | located g ih =>
    rw [language_located]
    exact (ih hp hn).located

end Grammar

end Source

end TensorLoops
