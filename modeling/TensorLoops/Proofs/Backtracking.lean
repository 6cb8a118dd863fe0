import TensorLoops.Source.Grammar

namespace TensorLoops

namespace Source

/-- What a parser has made of the front of a token sequence. -/
structure Taken (α : Type) where
  value : α
  taken : Tokens
  rest : Tokens

namespace Taken

variable {α β : Type}

def map (f : α → β) (x : Taken α) : Taken β := ⟨f x.value, x.taken, x.rest⟩

/-- Puts what was taken before in front. -/
def following (before : Tokens) (f : α → β) (x : Taken α) : Taken β :=
  ⟨f x.value, before ++ x.taken, x.rest⟩

end Taken

/-- Parses the front of a token sequence, or fails. -/
abbrev Parser (α : Type) := Tokens → Option (Taken α)

namespace Parser

variable {α β : Type}

def token (accept : Token → Option α) : Parser α
  | [] => none
  | t :: rest => (accept t.value).map fun a => ⟨a, [t], rest⟩

def seq (p : Parser α) (q : Parser β) : Parser (α × β) := fun ts =>
  (p ts).bind fun x => (q x.rest).map (·.following x.taken (x.value, ·))

/-- The second alternative is tried if the first one fails. -/
def either (p q : Parser α) : Parser α := fun ts => (p ts).or (q ts)

def optional (p : Parser α) : Parser (Option α) := fun ts =>
  some (((p ts).map (·.map some)).getD ⟨none, [], ts⟩)

/-- An element that takes no token ends the sequence. -/
def elements (p : Parser α) (ts : Tokens) : Taken (List α) :=
  match p ts with
  | none => ⟨[], [], ts⟩
  | some x =>
    if x.rest.length < ts.length then (elements p x.rest).following x.taken (x.value :: ·)
    else ⟨[], [], ts⟩
termination_by ts.length

def many (p : Parser α) : Parser (List α) := fun ts => some (elements p ts)

def comma : Parser Unit := token fun t => if t = .symbol .comma then some () else none

/-- A comma with no element after it may end the list. -/
def separated (p : Parser α) (ts : Tokens) : Taken (List α) :=
  match p ts with
  | none => ⟨[], [], ts⟩
  | some x =>
    match comma x.rest with
    | none => ⟨[x.value], x.taken, x.rest⟩
    | some c =>
      if c.rest.length < ts.length then
        (separated p c.rest).following (x.taken ++ c.taken) (x.value :: ·)
      else ⟨[], [], ts⟩
termination_by ts.length

def list (p : Parser α) : Parser (List α) := fun ts => some (separated p ts)

def map (f : α → β) (p : Parser α) : Parser β := fun ts => (p ts).map (·.map f)

def located (p : Parser α) : Parser (Located α) := fun ts =>
  (p ts).map fun x => ⟨⟨x.value, cover x.taken⟩, x.taken, x.rest⟩

end Parser

/-- Parsing by a grammar with ordered choice: a parser that fails takes nothing, and the next
alternative is tried from the same place, however far the failed one has come. -/
def Grammar.parser : {α : Type} → Grammar α → Parser α
  | _, .token _ accept => .token accept
  | _, .seq g h => .seq g.parser h.parser
  | _, .either g h => .either g.parser h.parser
  | _, .optional g => .optional g.parser
  | _, .many g => .many g.parser
  | _, .list g => .list g.parser
  | _, .map f g => .map f g.parser
  | _, .located g => .located g.parser

namespace Parser

variable {α β : Type} {p : Parser α} {q : Parser β} {g : Grammar α} {h : Grammar β}

/-- What the parser takes is at the front and is derived. -/
def Sound (p : Parser α) (derives : Tokens → α → Prop) : Prop :=
  ∀ ts x, p ts = some x → ts = x.taken ++ x.rest ∧ derives x.taken x.value

theorem sound_token (expected : Expected) (accept : Token → Option α) :
    (token accept).Sound (Grammar.token expected accept).Derives := by
  intro ts x hx
  cases ts with
  | nil => cases hx
  | cons t ts =>
    obtain ⟨a, ha, rfl⟩ := Option.map_eq_some_iff.mp hx
    exact ⟨rfl, t, rfl, ha⟩

theorem Sound.seq (hp : p.Sound g.Derives) (hq : q.Sound h.Derives) :
    (p.seq q).Sound (Grammar.seq g h).Derives := by
  intro ts z hz
  obtain ⟨x, hx, hz⟩ := Option.bind_eq_some_iff.mp hz
  obtain ⟨y, hy, rfl⟩ := Option.map_eq_some_iff.mp hz
  obtain ⟨hts, ha⟩ := hp ts x hx
  obtain ⟨hrest, hb⟩ := hq x.rest y hy
  refine ⟨?_, x.taken, y.taken, rfl, ha, hb⟩
  rw [hts, hrest, ← List.append_assoc]
  rfl

theorem Sound.either {p q : Parser α} {g h : Grammar α} (hp : p.Sound g.Derives)
    (hq : q.Sound h.Derives) : (p.either q).Sound (Grammar.either g h).Derives := by
  intro ts x hx
  rcases Option.or_eq_some_iff.mp hx with hx | ⟨-, hx⟩
  · obtain ⟨hts, ha⟩ := hp ts x hx
    exact ⟨hts, .inl ha⟩
  · obtain ⟨hts, ha⟩ := hq ts x hx
    exact ⟨hts, .inr ha⟩

theorem Sound.optional (hp : p.Sound g.Derives) :
    p.optional.Sound (Grammar.optional g).Derives := by
  intro ts x hx
  cases hx
  cases hfirst : p ts with
  | none => exact ⟨rfl, rfl⟩
  | some y => exact hp ts y hfirst

theorem Sound.many (hp : p.Sound g.Derives) : p.many.Sound (Grammar.many g).Derives := by
  intro ts x hx
  cases hx
  induction hn : ts.length using Nat.strongRecOn generalizing ts with
  | ind n ih =>
    unfold elements
    split
    · exact ⟨rfl, .nil⟩
    · rename_i x hfirst
      split
      · rename_i hlt
        obtain ⟨hts, ha⟩ := hp ts x hfirst
        obtain ⟨hrest, has⟩ := ih _ (hn ▸ hlt) x.rest rfl
        refine ⟨?_, .cons ha has⟩
        rw [Taken.following, List.append_assoc, ← hrest]
        exact hts
      · exact ⟨rfl, .nil⟩

theorem comma_eq_some {ts : Tokens} {c : Taken Unit} (h : comma ts = some c) :
    ∃ t, c.taken = [t] ∧ ts = t :: c.rest ∧ t.value = .symbol .comma := by
  cases ts with
  | nil => cases h
  | cons t ts =>
    obtain ⟨u, hu, rfl⟩ := Option.map_eq_some_iff.mp h
    exact ⟨t, rfl, rfl, by simpa using hu⟩

theorem Sound.list (hp : p.Sound g.Derives) : p.list.Sound (Grammar.list g).Derives := by
  intro ts x hx
  cases hx
  induction hn : ts.length using Nat.strongRecOn generalizing ts with
  | ind n ih =>
    unfold separated
    split
    · exact ⟨rfl, .nil⟩
    · rename_i x hfirst
      obtain ⟨hts, ha⟩ := hp ts x hfirst
      split
      · exact ⟨hts, .last ha⟩
      · rename_i c hcomma
        obtain ⟨t, htaken, hrest, ht⟩ := comma_eq_some hcomma
        split
        · rename_i hlt
          obtain ⟨htail, has⟩ := ih _ (hn ▸ hlt) c.rest rfl
          have htokens : x.taken ++ c.taken ++ (separated p c.rest).taken =
              x.taken ++ t :: (separated p c.rest).taken := by
            rw [htaken, List.append_assoc, List.singleton_append]
          rw [Taken.following, htokens]
          refine ⟨?_, .cons ha ht has⟩
          rw [List.append_assoc, List.cons_append, ← htail, ← hrest]
          exact hts
        · exact ⟨rfl, .nil⟩

theorem Sound.map (hp : p.Sound g.Derives) (f : α → β) :
    (p.map f).Sound (Grammar.map f g).Derives := by
  intro ts y hy
  obtain ⟨x, hx, rfl⟩ := Option.map_eq_some_iff.mp hy
  obtain ⟨hts, ha⟩ := hp ts x hx
  exact ⟨hts, x.value, ha, rfl⟩

theorem Sound.located (hp : p.Sound g.Derives) :
    p.located.Sound (Grammar.located g).Derives := by
  intro ts y hy
  obtain ⟨x, hx, rfl⟩ := Option.map_eq_some_iff.mp hy
  obtain ⟨hts, ha⟩ := hp ts x hx
  exact ⟨hts, ha, rfl⟩

end Parser

/-- A parser takes from the front what its grammar derives. -/
theorem Grammar.parser_sound {α : Type} (g : Grammar α) : g.parser.Sound g.Derives := by
  induction g with
  | token expected accept => exact Parser.sound_token expected accept
  | seq g h ihg ihh => exact ihg.seq ihh
  | either g h ihg ihh => exact ihg.either ihh
  | optional g ih => exact ih.optional
  | many g ih => exact ih.many
  | list g ih => exact ih.list
  | map f g ih => exact ih.map f
  | located g ih => exact ih.located

namespace Reader

variable {α β : Type} {r : Reader α} {s : Reader β} {p : Parser α} {q : Parser β}

/-- What the reader reads is parsed, and where it is stuck before it has taken anything, the parser
fails. -/
structure Agrees (r : Reader α) (p : Parser α) : Prop where
  read : ∀ {tried ts a taken rest tried'}, r tried ts = .read a taken rest tried' →
    p ts = some ⟨a, taken, rest⟩
  stuck : ∀ {tried ts rest tried'}, r tried ts = .stuck [] rest tried' → p ts = none

theorem agrees_token (expected : Expected) (accept : Token → Option α) :
    (token expected accept).Agrees (Parser.token accept) where
  read {tried ts a taken rest tried'} h := by
    cases ts with
    | nil => cases h
    | cons t ts =>
      dsimp only [token] at h
      cases ha : accept t.value with
      | none => simp [ha] at h
      | some b =>
        rw [ha] at h
        cases h
        simp [Parser.token, ha]
  stuck {tried ts rest tried'} h := by
    cases ts with
    | nil => rfl
    | cons t ts =>
      dsimp only [token] at h
      cases ha : accept t.value with
      | none => simp [Parser.token, ha]
      | some b => simp [ha] at h

theorem Agrees.seq (hr : r.Agrees p) (hs : s.Agrees q) : (r.seq s).Agrees (p.seq q) where
  read {tried ts ab taken rest tried'} h := by
    unfold Reader.seq at h
    cases hfirst : r tried ts with
    | stuck us rest₁ tried₁ => simp [hfirst] at h
    | read a us rest₁ tried₁ =>
      rw [hfirst] at h
      dsimp only at h
      cases hsecond : s tried₁ rest₁ with
      | stuck vs rest₂ tried₂ => simp [hsecond, Reading.following] at h
      | read b vs rest₂ tried₂ =>
        rw [hsecond] at h
        cases h
        simp [Parser.seq, hr.read hfirst, hs.read hsecond, Taken.following]
  stuck {tried ts rest tried'} h := by
    unfold Reader.seq at h
    cases hfirst : r tried ts with
    | stuck us rest₁ tried₁ =>
      rw [hfirst] at h
      cases h
      simp [Parser.seq, hr.stuck hfirst]
    | read a us rest₁ tried₁ =>
      rw [hfirst] at h
      dsimp only at h
      cases hsecond : s tried₁ rest₁ with
      | read b vs rest₂ tried₂ => simp [hsecond, Reading.following] at h
      | stuck vs rest₂ tried₂ =>
        rw [hsecond] at h
        obtain ⟨htaken, -, -⟩ := Reading.stuck.inj h
        obtain ⟨rfl, rfl⟩ := List.append_eq_nil_iff.mp htaken
        simp [Parser.seq, hr.read hfirst, hs.stuck hsecond]

theorem Agrees.either {s : Reader α} {q : Parser α} (hr : r.Agrees p) (hs : s.Agrees q) :
    (r.either s).Agrees (p.either q) where
  read {tried ts a taken rest tried'} h := by
    unfold Reader.either at h
    split at h
    · rename_i hfirst
      cases h
      simp [Parser.either, hr.read hfirst]
    · rename_i hfirst
      simp [Parser.either, hr.stuck hfirst, hs.read h]
    · cases h
  stuck {tried ts rest tried'} h := by
    unfold Reader.either at h
    split at h
    · cases h
    · rename_i hfirst
      simp [Parser.either, hr.stuck hfirst, hs.stuck h]
    · rename_i hne hfirst
      cases h
      exact absurd rfl hne

theorem Agrees.optional (hr : r.Agrees p) : r.optional.Agrees p.optional where
  read {tried ts a taken rest tried'} h := by
    unfold Reader.optional at h
    split at h
    · rename_i hfirst
      cases h
      simp [Parser.optional, hr.read hfirst, Taken.map]
    · rename_i hfirst
      cases h
      simp [Parser.optional, hr.stuck hfirst]
    · cases h
  stuck {tried ts rest tried'} h := by
    unfold Reader.optional at h
    split at h
    · cases h
    · cases h
    · rename_i hne hfirst
      cases h
      exact absurd rfl hne

/-- A sequence is never stuck at the beginning. -/
theorem agrees_of_ne_stuck {r : Reader α} {p : Tokens → Taken α}
    (h : ∀ tried ts, (∀ {a taken rest tried'}, r tried ts = .read a taken rest tried' →
      p ts = ⟨a, taken, rest⟩) ∧ ∀ {rest tried'}, r tried ts ≠ .stuck [] rest tried') :
    r.Agrees fun ts => some (p ts) where
  read hread := congrArg some ((h _ _).1 hread)
  stuck hstuck := absurd hstuck (h _ _).2

theorem Agrees.many (hr : r.Agrees p) : Agrees (Reader.many r) p.many := by
  refine agrees_of_ne_stuck fun tried ts => ?_
  fun_induction Reader.many r tried ts with
  | case1 tried ts a us rest₁ tried₁ hfirst hlt ih =>
    obtain ⟨hread, hstuck⟩ := ih
    rw [Parser.elements, hr.read hfirst]
    dsimp only
    rw [if_pos hlt]
    constructor
    · intro as taken rest tried' h
      cases htail : Reader.many r tried₁ rest₁ with
      | stuck vs rest₂ tried₂ => simp [htail, Reading.following] at h
      | read bs vs rest₂ tried₂ =>
        rw [htail] at h
        cases h
        rw [hread htail]
        rfl
    · intro rest tried' h
      cases htail : Reader.many r tried₁ rest₁ with
      | read bs vs rest₂ tried₂ => simp [htail, Reading.following] at h
      | stuck vs rest₂ tried₂ =>
        rw [htail] at h
        obtain ⟨htaken, -, -⟩ := Reading.stuck.inj h
        obtain ⟨-, rfl⟩ := List.append_eq_nil_iff.mp htaken
        exact hstuck htail
  | case2 tried ts a us rest₁ tried₁ hfirst hlt =>
    rw [Parser.elements, hr.read hfirst]
    dsimp only
    rw [if_neg hlt]
    exact ⟨fun h => by cases h; rfl, nofun⟩
  | case3 tried ts rest₁ tried₁ hfirst =>
    rw [Parser.elements, hr.stuck hfirst]
    exact ⟨fun h => by cases h; rfl, nofun⟩
  | case4 tried ts us rest₁ tried₁ hne hfirst =>
    refine ⟨nofun, fun h => ?_⟩
    cases h
    exact absurd rfl hne

theorem agrees_comma : Agrees comma Parser.comma := agrees_token _ _

/-- A comma is one token, and what is no comma is left alone. -/
theorem comma_cases (tried : List Expected) (ts : Tokens) :
    (∃ t rest, comma tried ts = .read () [t] rest []) ∨
      ∃ tried', comma tried ts = .stuck [] ts tried' := by
  cases ts with
  | nil => exact .inr ⟨_, rfl⟩
  | cons t ts =>
    by_cases ht : t.value = .symbol .comma
    · exact .inl ⟨t, ts, by simp [comma, token, ht]⟩
    · exact .inr ⟨tried ++ [.exactly (.symbol .comma)], by simp [comma, token, ht]⟩

theorem Agrees.list (hr : r.Agrees p) : Agrees (Reader.list r) p.list := by
  refine agrees_of_ne_stuck fun tried ts => ?_
  fun_induction Reader.list r tried ts with
  | case1 tried ts a us rest₁ tried₁ hfirst separator rest₂ tried₂ hcomma hlt ih =>
    rw [Parser.separated, hr.read hfirst]
    dsimp only
    rw [agrees_comma.read hcomma]
    dsimp only
    rw [if_pos hlt]
    constructor
    · intro as taken rest tried' h
      cases htail : Reader.list r tried₂ rest₂ with
      | stuck vs rest₃ tried₃ => simp [htail, Reading.following] at h
      | read bs vs rest₃ tried₃ =>
        rw [htail] at h
        cases h
        rw [ih.1 htail]
        rfl
    · intro rest tried' h
      have hseparator : separator ≠ [] := by
        rcases comma_cases tried₁ rest₁ with ⟨t, rest, hread⟩ | ⟨tried', hstuck⟩
        · cases hcomma.symm.trans hread
          exact List.cons_ne_nil _ _
        · cases hcomma.symm.trans hstuck
      cases htail : Reader.list r tried₂ rest₂ <;> simp [htail, Reading.following, hseparator] at h
  | case2 tried ts a us rest₁ tried₁ hfirst separator rest₂ tried₂ hcomma hlt =>
    rw [Parser.separated, hr.read hfirst]
    dsimp only
    rw [agrees_comma.read hcomma]
    dsimp only
    rw [if_neg hlt]
    exact ⟨fun h => by cases h; rfl, nofun⟩
  | case3 tried ts a us rest₁ tried₁ hfirst vs rest₂ tried₂ hcomma =>
    rcases comma_cases tried₁ rest₁ with ⟨t, rest, hread⟩ | ⟨tried', hstuck⟩
    · cases hcomma.symm.trans hread
    · rw [Parser.separated, hr.read hfirst]
      dsimp only
      rw [agrees_comma.stuck hstuck]
      exact ⟨fun h => by cases h; rfl, nofun⟩
  | case4 tried ts rest₁ tried₁ hfirst =>
    rw [Parser.separated, hr.stuck hfirst]
    exact ⟨fun h => by cases h; rfl, nofun⟩
  | case5 tried ts us rest₁ tried₁ hne hfirst =>
    refine ⟨nofun, fun h => ?_⟩
    cases h
    exact absurd rfl hne

theorem Agrees.map (hr : r.Agrees p) (f : α → β) : (r.map f).Agrees (p.map f) where
  read {tried ts b taken rest tried'} h := by
    unfold Reader.map at h
    cases hfirst : r tried ts with
    | stuck us rest₁ tried₁ => simp [hfirst, Reading.map] at h
    | read a us rest₁ tried₁ =>
      rw [hfirst] at h
      cases h
      simp [Parser.map, hr.read hfirst, Taken.map]
  stuck {tried ts rest tried'} h := by
    unfold Reader.map at h
    cases hfirst : r tried ts with
    | read a us rest₁ tried₁ => simp [hfirst, Reading.map] at h
    | stuck us rest₁ tried₁ =>
      rw [hfirst] at h
      cases h
      simp [Parser.map, hr.stuck hfirst]

theorem Agrees.located (hr : r.Agrees p) : r.located.Agrees p.located where
  read {tried ts b taken rest tried'} h := by
    unfold Reader.located at h
    split at h
    · rename_i hfirst
      cases h
      simp [Parser.located, hr.read hfirst]
    · cases h
  stuck {tried ts rest tried'} h := by
    unfold Reader.located at h
    split at h
    · cases h
    · rename_i hfirst
      cases h
      simp [Parser.located, hr.stuck hfirst]

end Reader

namespace Grammar

/-- Reading by a grammar agrees with parsing by it. -/
theorem reader_agrees {α : Type} (g : Grammar α) : g.reader.Agrees g.parser := by
  induction g with
  | token expected accept => exact Reader.agrees_token expected accept
  | seq g h ihg ihh => exact ihg.seq ihh
  | either g h ihg ihh => exact ihg.either ihh
  | optional g ih => exact ih.optional
  | many g ih => exact ih.many
  | list g ih => exact ih.list
  | map f g ih => exact ih.map f
  | located g ih => exact ih.located

/-- What is read is at the front and is derived. -/
theorem reader_sound {α : Type} {g : Grammar α} {tried tried' : List Expected}
    {ts taken rest : Tokens} {a : α} (h : g.reader tried ts = .read a taken rest tried') :
    ts = taken ++ rest ∧ g.Derives taken a :=
  g.parser_sound ts _ (g.reader_agrees.read h)

end Grammar

end Source

end TensorLoops
