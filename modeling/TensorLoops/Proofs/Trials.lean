import Mathlib.Data.Bool.Basic
import TensorLoops.Proofs.Backtracking
import TensorLoops.Proofs.Prediction
import TensorLoops.Source.KernelGrammar

namespace TensorLoops

namespace Source

/-- A failed attempt: the tokens from its place on, and what could have come there. -/
abbrev Trial := Tokens × Expected

namespace Parser

variable {α : Type}

/-- The failed attempts at one token. -/
def tokenTrials (expected : Expected) (accept : Token → Option α) (ts : Tokens) : List Trial :=
  if (token accept ts).isSome then [] else [(ts, expected)]

/-- A token is tried where it should be. -/
theorem place_of_mem_tokenTrials {expected : Expected} {accept : Token → Option α} {ts : Tokens}
    {x : Trial} (h : x ∈ tokenTrials expected accept ts) : x.1 = ts := by
  unfold tokenTrials at h
  split at h
  · cases h
  · rw [List.mem_singleton.mp h]

/-- The failed attempts at the elements of a sequence. -/
def elementTrials (p : Parser α) (trials : Tokens → List Trial) (ts : Tokens) : List Trial :=
  trials ts ++
    match p ts with
    | none => []
    | some x => if x.rest.length < ts.length then elementTrials p trials x.rest else []
termination_by ts.length

def commaTrials : Tokens → List Trial :=
  tokenTrials (.exactly (.symbol .comma)) fun t => if t = .symbol .comma then some () else none

/-- The failed attempts at the elements of a list and at the commas between them. -/
def separatedTrials (p : Parser α) (trials : Tokens → List Trial) (ts : Tokens) : List Trial :=
  trials ts ++
    match p ts with
    | none => []
    | some x => commaTrials x.rest ++
      match comma x.rest with
      | none => []
      | some c => if c.rest.length < ts.length then separatedTrials p trials c.rest else []
termination_by ts.length

end Parser

/-- The failed attempts of parsing by a grammar, in order. -/
def Grammar.trials : {α : Type} → Grammar α → Tokens → List Trial
  | _, .token expected accept, ts => Parser.tokenTrials expected accept ts
  | _, .seq g h, ts => g.trials ts ++
    match g.parser ts with
    | none => []
    | some x => h.trials x.rest
  | _, .either g h, ts => g.trials ts ++
    match g.parser ts with
    | none => h.trials ts
    | some _ => []
  | _, .many g, ts => Parser.elementTrials g.parser g.trials ts
  | _, .list g, ts => Parser.separatedTrials g.parser g.trials ts
  | _, .optional g, ts | _, .map _ g, ts | _, .located g, ts => g.trials ts

namespace Grammar

variable {α β : Type}

theorem trials_token (expected : Expected) (accept : Token → Option α) (ts : Tokens) :
    (token expected accept).trials ts = Parser.tokenTrials expected accept ts := rfl

theorem trials_seq (g : Grammar α) (h : Grammar β) (ts : Tokens) :
    (seq g h).trials ts = g.trials ts ++
      match g.parser ts with
      | none => []
      | some x => h.trials x.rest := rfl

theorem trials_either (g h : Grammar α) (ts : Tokens) :
    (either g h).trials ts = g.trials ts ++
      match g.parser ts with
      | none => h.trials ts
      | some _ => [] := rfl

theorem trials_many (g : Grammar α) (ts : Tokens) :
    (many g).trials ts = Parser.elementTrials g.parser g.trials ts := rfl

theorem trials_list (g : Grammar α) (ts : Tokens) :
    (list g).trials ts = Parser.separatedTrials g.parser g.trials ts := rfl

end Grammar

/-- The failed attempts of parsing a whole input. The end is tried where parsing has come to. -/
def Grammar.inputTrials {α : Type} (g : Grammar α) (ts : Tokens) : List Trial :=
  g.trials ts ++
    match g.parser ts with
    | none => []
    | some x => if x.rest.isEmpty then [] else [(x.rest, .endOfInput)]

/-- None of the trials is further than the place before `rest`, and `expected` is what was tried
there. -/
structure Furthest (trials : List Trial) (rest : Tokens) (expected : List Expected) : Prop where
  furthest : ∀ x ∈ trials, rest.length ≤ x.1.length
  merged : ∀ e, e ∈ expected ↔ (rest, e) ∈ trials
  attained : expected ≠ []

/-- None of the trials is further than the place before `rest`, and what was tried there is `tried`.
What was tried `before` still counts if nothing is taken. -/
structure Covers (trials : List Trial) (before : List Expected) (ts taken rest : Tokens)
    (tried : List Expected) : Prop where
  split : taken ++ rest = ts
  furthest : ∀ x ∈ trials, rest.length ≤ x.1.length
  tried : ∀ e, e ∈ tried ↔ (taken = [] ∧ e ∈ before) ∨ (rest, e) ∈ trials

variable {T S : List Trial} {before tried tried' : List Expected} {ts us vs taken rest : Tokens}

/-- What comes next is tried where the first part ends. -/
theorem Covers.append (h : Covers T before ts us vs tried)
    (h' : Covers S tried vs taken rest tried') :
    Covers (T ++ S) before ts (us ++ taken) rest tried' := by
  have hlength : vs.length = taken.length + rest.length := by rw [← h'.split, List.length_append]
  refine ⟨by rw [List.append_assoc, h'.split, h.split], fun x hx => ?_, fun e => ?_⟩
  · rcases List.mem_append.mp hx with hx | hx
    · exact Nat.le_trans (by omega) (h.furthest x hx)
    · exact h'.furthest x hx
  · rw [h'.tried, h.tried, List.mem_append]
    cases taken with
    | nil =>
      obtain rfl : rest = vs := h'.split
      simp only [List.append_nil, true_and, or_assoc]
    | cons t taken =>
      have hbefore : (rest, e) ∉ T := by
        intro hmem
        have hle := h.furthest _ hmem
        simp only [List.length_cons] at hlength hle
        omega
      simp [hbefore]

/-- What is tried further back does not count. -/
theorem Covers.back (h : Covers T before ts taken rest tried)
    (hback : ∀ x ∈ S, rest.length < x.1.length) : Covers (T ++ S) before ts taken rest tried := by
  refine ⟨h.split, fun x hx => ?_, fun e => ?_⟩
  · rcases List.mem_append.mp hx with hx | hx
    · exact h.furthest x hx
    · exact Nat.le_of_lt (hback x hx)
  · have hmem : (rest, e) ∉ S := fun hmem => Nat.lt_irrefl _ (hback _ hmem)
    rw [h.tried, List.mem_append, or_iff_left hmem]

namespace Grammar

variable {α : Type}

/-- Before a token that cannot begin a derivation the parser takes nothing. -/
theorem parser_of_stops {g : Grammar α} (hp : g.Predictive) (h : Stops g.starts ts) :
    (g.nullable = true → ∃ a, g.parser ts = some ⟨a, [], ts⟩) ∧
      (g.nullable = false → g.parser ts = none) := by
  obtain ⟨hnull, hrefuse⟩ := takes_nothing hp h
  constructor
  · intro hn
    obtain ⟨a, ha⟩ := hnull hn
    obtain ⟨tried, hread⟩ := ha []
    exact ⟨a, g.reader_agrees.read hread⟩
  · intro hn
    obtain ⟨tried, hstuck⟩ := hrefuse hn []
    exact g.reader_agrees.stuck hstuck

/-- Before such a token all attempts are made at that place. -/
theorem trials_of_stops {g : Grammar α} (hp : g.Predictive) (h : Stops g.starts ts) :
    ∀ x ∈ g.trials ts, x.1 = ts := by
  induction g with
  | token expected accept => exact fun x hx => Parser.place_of_mem_tokenTrials hx
  | seq g k ihg ihk =>
    obtain ⟨hg, hk⟩ := stops_or.mp h
    intro x hx
    rcases List.mem_append.mp hx with hx | hx
    · exact ihg hp.1 hg x hx
    · cases hn : g.nullable with
      | false =>
        rw [(parser_of_stops hp.1 hg).2 hn] at hx
        cases hx
      | true =>
        obtain ⟨a, ha⟩ := (parser_of_stops hp.1 hg).1 hn
        rw [ha] at hx
        exact ihk hp.2.1 (by simpa [hn] using hk) x hx
  | either g k ihg ihk =>
    obtain ⟨hg, hk⟩ := stops_or.mp h
    intro x hx
    rcases List.mem_append.mp hx with hx | hx
    · exact ihg hp.1 hg x hx
    · rw [(parser_of_stops hp.1 hg).2 hp.2.2.1.1] at hx
      exact ihk hp.2.1 hk x hx
  | optional g ih => exact ih hp.1 h
  | many g ih =>
    have htrials : (Grammar.many g).trials ts = g.trials ts := by
      rw [trials_many, Parser.elementTrials, (parser_of_stops hp.1 h).2 hp.2.1, List.append_nil]
    rw [htrials]
    exact ih hp.1 h
  | list g ih =>
    have hg := (stops_or.mp h).1
    have htrials : (Grammar.list g).trials ts = g.trials ts := by
      rw [trials_list, Parser.separatedTrials, (parser_of_stops hp.1 hg).2 hp.2.1, List.append_nil]
    rw [htrials]
    exact ih hp.1 hg
  | map f g ih => exact ih hp h
  | located g ih => exact ih hp h

/-- What could not begin further back is tried there in vain. -/
theorem covers_back {g : Grammar α} (hp : g.Predictive) (hstops : Stops g.starts us)
    (h : Covers T before ts taken rest tried) (hlt : rest.length < us.length) :
    Covers (T ++ g.trials us) before ts taken rest tried := by
  refine h.back fun x hx => ?_
  rw [trials_of_stops hp hstops x hx]
  exact hlt

/-- A reader that is stuck after it has taken something has begun a derivation. -/
theorem not_stops_of_stuck {g : Grammar α} (hp : g.Predictive)
    (h : g.reader before ts = .stuck taken rest tried) (hne : taken ≠ []) :
    ¬ Stops g.starts ts := by
  intro hstops
  obtain ⟨hnull, hrefuse⟩ := takes_nothing hp hstops
  cases hn : g.nullable with
  | true =>
    obtain ⟨a, ha⟩ := hnull hn
    obtain ⟨tried', hread⟩ := ha before
    cases h.symm.trans hread
  | false =>
    obtain ⟨tried', hstuck⟩ := hrefuse hn before
    cases h.symm.trans hstuck
    exact hne rfl

end Grammar

open Grammar

variable {α β : Type} {p q : Token → Bool}

/-- What was parsed ends further back than `rest`, and the token there could have gone on with
it. -/
def Retreats (parsed : Option (Taken α)) (rest : Tokens) (continues : Token → Bool) : Prop :=
  ∀ x ∈ parsed, rest.length < x.rest.length ∧ ¬ Stops continues x.rest

theorem retreats_none : Retreats (none : Option (Taken α)) rest p := fun _ h => nomatch h

theorem retreats_some {x : Taken α} :
    Retreats (some x) rest p ↔ rest.length < x.rest.length ∧ ¬ Stops p x.rest := by
  simp [Retreats]

theorem Retreats.mono {parsed : Option (Taken α)} (h : Retreats parsed rest p)
    (hpq : ∀ t, p t = true → q t = true) : Retreats parsed rest q := by
  intro x hx
  obtain ⟨hlt, hcontinues⟩ := h x hx
  exact ⟨hlt, not_stops_mono hpq hcontinues⟩

theorem Retreats.map {parsed : Option (Taken α)} (h : Retreats parsed rest p)
    {f : Taken α → Taken β} (hf : ∀ x, (f x).rest = x.rest) :
    Retreats (parsed.map f) rest p := by
  intro z hz
  obtain ⟨x, hx, rfl⟩ := Option.map_eq_some_iff.mp hz
  rw [hf x]
  exact h x hx

namespace Reading

/-- What the reading has tried is what a parser has tried furthest. Where the reading is stuck the
parser fails or has gone back. -/
def Tracks (trials : List Trial) (parsed : Option (Taken α)) (continues : Token → Bool)
    (before : List Expected) (ts : Tokens) : Reading α → Prop
  | read _ taken rest tried => Covers trials before ts taken rest tried
  | stuck taken rest tried => Covers trials before ts taken rest tried ∧
      Retreats parsed rest continues

theorem Tracks.following {parsed : Option (Taken α)} {y : Reading α}
    (hy : y.Tracks S parsed p tried vs) (h : Covers T before ts us vs tried) (f : α → β)
    (hpq : ∀ t, p t = true → q t = true) {k : Taken α → Taken β}
    (hk : ∀ x, (k x).rest = x.rest) :
    (y.following us f).Tracks (T ++ S) (parsed.map k) q before ts := by
  cases y with
  | read a taken rest tried' => exact h.append hy
  | stuck taken rest tried' => exact ⟨h.append hy.1, (hy.2.mono hpq).map hk⟩

theorem following_nil (y : Reading α) : y.following [] id = y := by
  cases y <;> rfl

end Reading

namespace Grammar

variable {g : Grammar α} {h : Grammar β}

/-- Wherever it is put to work, the reader tracks the parser. -/
def Tracked (g : Grammar α) : Prop :=
  ∀ before ts, (g.reader before ts).Tracks (g.trials ts) (g.parser ts) g.continues before ts

theorem Tracked.read (hg : g.Tracked) {a : α} (h : g.reader before ts = .read a taken rest tried) :
    Covers (g.trials ts) before ts taken rest tried := by
  have htracks := hg before ts
  rwa [h] at htracks

theorem Tracked.stuck (hg : g.Tracked) (h : g.reader before ts = .stuck taken rest tried) :
    Covers (g.trials ts) before ts taken rest tried ∧
      Retreats (g.parser ts) rest g.continues := by
  have htracks := hg before ts
  rwa [h] at htracks

/-- A reader that is stuck before it has taken anything leaves all tokens. -/
theorem Tracked.stuck_nil (hg : g.Tracked) (h : g.reader before ts = .stuck [] rest tried) :
    Covers (g.trials ts) before ts [] ts tried := by
  obtain ⟨hcovers, -⟩ := hg.stuck h
  obtain rfl : rest = ts := hcovers.split
  exact hcovers

theorem tracked_token (expected : Expected) (accept : Token → Option α) :
    (token expected accept).Tracked := by
  intro before ts
  cases ts with
  | nil => exact ⟨⟨rfl, by simp [trials_token, Parser.tokenTrials, Parser.token],
      by simp [trials_token, Parser.tokenTrials, Parser.token]⟩, retreats_none⟩
  | cons t ts =>
    cases ha : accept t.value with
    | none =>
      have hread : (token expected accept).reader before (t :: ts) =
          .stuck [] (t :: ts) (before ++ [expected]) := by
        simp only [reader, Reader.token, ha]
      have hparser : (token expected accept).parser (t :: ts) = none := by
        show Parser.token accept (t :: ts) = none
        simp only [Parser.token, ha, Option.map_none]
      have htrials : (token expected accept).trials (t :: ts) = [(t :: ts, expected)] := by
        simp [trials_token, Parser.tokenTrials, Parser.token, ha]
      rw [hread, hparser, htrials]
      exact ⟨⟨rfl, by simp, by simp⟩, retreats_none⟩
    | some a =>
      have hread : (token expected accept).reader before (t :: ts) = .read a [t] ts [] := by
        simp only [reader, Reader.token, ha]
      have htrials : (token expected accept).trials (t :: ts) = [] := by
        simp [trials_token, Parser.tokenTrials, Parser.token, ha]
      rw [hread, htrials]
      exact ⟨rfl, by simp, by simp⟩

theorem tracked_seq (hp : (seq g h).Predictive) (hg : g.Tracked) (hh : h.Tracked) :
    (seq g h).Tracked := by
  obtain ⟨hpg, hph, hdisjoint⟩ := hp
  intro before ts
  change (Reader.seq g.reader h.reader before ts).Tracks _ (Parser.seq g.parser h.parser ts) _
    before ts
  rw [Reader.seq, Parser.seq, trials_seq]
  cases hfirst : g.reader before ts with
  | read a us vs tried =>
    rw [g.reader_agrees.read hfirst]
    exact (hh tried vs).following (hg.read hfirst) _ (fun _ ht => Bool.or_inl ht)
      fun _ => rfl
  | stuck us vs tried =>
    obtain ⟨hcovers, hretreats⟩ := hg.stuck hfirst
    cases hparser : g.parser ts with
    | none =>
      rw [List.append_nil]
      exact ⟨hcovers, retreats_none⟩
    | some x =>
      -- the parser has gone back, and the second part takes nothing there
      rw [hparser, retreats_some] at hretreats
      obtain ⟨hlt, hcontinues⟩ := hretreats
      have hstops : Stops h.starts x.rest := stops_of_not_stops hdisjoint hcontinues
      obtain ⟨hnull, hrefuse⟩ := parser_of_stops hph hstops
      refine ⟨covers_back hph hstops hcovers hlt, ?_⟩
      rw [Option.bind_some]
      cases hn : h.nullable with
      | false =>
        rw [hrefuse hn]
        exact retreats_none
      | true =>
        obtain ⟨b, hb⟩ := hnull hn
        rw [hb]
        exact retreats_some.mpr
          ⟨hlt, not_stops_mono (fun _ ht => Bool.or_inr (Bool.and_eq_true_iff.mpr ⟨hn, ht⟩))
            hcontinues⟩

theorem tracked_either {h : Grammar α} (hp : (either g h).Predictive) (hg : g.Tracked)
    (hh : h.Tracked) : (either g h).Tracked := by
  obtain ⟨hpg, hph, ⟨hgn, hhn⟩, hdisjoint⟩ := hp
  intro before ts
  change (Reader.either g.reader h.reader before ts).Tracks _ (Parser.either g.parser h.parser ts) _
    before ts
  rw [Reader.either, Parser.either]
  split
  · rename_i a taken rest tried hfirst
    rw [trials_either, g.reader_agrees.read hfirst, List.append_nil]
    exact hg.read hfirst
  · rename_i rest tried hfirst
    rw [trials_either, g.reader_agrees.stuck hfirst, Option.none_or,
      ← Reading.following_nil (h.reader tried ts), ← Option.map_id_apply (x := h.parser ts)]
    exact (hh tried ts).following (hg.stuck_nil hfirst) _ (fun _ ht => Bool.or_inr ht)
      fun _ => rfl
  · rename_i taken rest tried hne hfirst
    obtain ⟨hcovers, hretreats⟩ := hg.stuck hfirst
    rw [trials_either]
    cases hparser : g.parser ts with
    | some x =>
      rw [hparser] at hretreats
      rw [List.append_nil, Option.some_or]
      exact ⟨hcovers, hretreats.mono fun _ ht => Bool.or_inl ht⟩
    | none =>
      -- the second alternative cannot begin either
      have hstops := stops_of_not_stops hdisjoint (not_stops_of_stuck hpg hfirst hne)
      rw [Option.none_or, (parser_of_stops hph hstops).2 hhn]
      have hlt := length_lt_of_append hcovers.split hne
      exact ⟨covers_back hph hstops hcovers hlt, retreats_none⟩

/-- Without the part that was begun the parser is back at its beginning. -/
theorem Tracked.retreats_begun (hp : g.Predictive) (hg : g.Tracked)
    (h : g.reader before ts = .stuck taken rest tried) (hne : taken ≠ []) (b : β) :
    Retreats (some ⟨b, [], ts⟩) rest g.starts :=
  retreats_some.mpr ⟨length_lt_of_append (hg.stuck h).1.split hne, not_stops_of_stuck hp h hne⟩

theorem tracked_optional (hp : (optional g).Predictive) (hg : g.Tracked) :
    (optional g).Tracked := by
  intro before ts
  change (Reader.optional g.reader before ts).Tracks (g.trials ts) (Parser.optional g.parser ts) _
    before ts
  rw [Reader.optional, Parser.optional]
  split
  · rename_i a taken rest tried hfirst
    exact hg.read hfirst
  · rename_i rest tried hfirst
    exact hg.stuck_nil hfirst
  · rename_i taken rest tried hne hfirst
    obtain ⟨hcovers, hretreats⟩ := hg.stuck hfirst
    refine ⟨hcovers, ?_⟩
    cases hparser : g.parser ts with
    | none => exact (hg.retreats_begun hp.1 hfirst hne _).mono fun _ ht => Bool.or_inl ht
    | some x =>
      rw [hparser] at hretreats
      have hmono := hretreats.mono (q := (optional g).continues) fun _ ht => Bool.or_inr ht
      exact hmono.map (f := Taken.map some) fun _ => rfl

/-- What a parser takes by a grammar that is not nullable is not nothing. -/
theorem length_rest_lt (hn : g.nullable = false) {x : Taken α} (h : g.parser ts = some x) :
    x.rest.length < ts.length := by
  obtain ⟨hts, hderives⟩ := g.parser_sound ts x h
  exact length_lt_of_append hts.symm (hderives.ne_nil hn)

theorem tracked_many (hp : (many g).Predictive) (hg : g.Tracked) : (many g).Tracked := by
  obtain ⟨hpg, hn, hdisjoint⟩ := hp
  intro before ts
  change (Reader.many g.reader before ts).Tracks _ (Parser.many g.parser ts) _ before ts
  rw [Parser.many, trials_many]
  fun_induction Reader.many g.reader before ts with
  | case1 before ts a us vs tried hfirst hlt ih =>
    rw [Parser.elementTrials, Parser.elements, g.reader_agrees.read hfirst]
    dsimp only
    rw [if_pos hlt, if_pos hlt]
    exact ih.following (hg.read hfirst) _ (fun _ ht => ht) (k := (·.following us (a :: ·)))
      fun _ => rfl
  | case2 before ts a us vs tried hfirst hlt =>
    exact absurd (length_rest_lt hn (g.reader_agrees.read hfirst)) hlt
  | case3 before ts rest tried hfirst =>
    rw [Parser.elementTrials, g.reader_agrees.stuck hfirst, List.append_nil]
    exact hg.stuck_nil hfirst
  | case4 before ts taken rest tried hne hfirst =>
    obtain ⟨hcovers, hretreats⟩ := hg.stuck hfirst
    rw [Parser.elementTrials, Parser.elements]
    cases hparser : g.parser ts with
    | none =>
      rw [List.append_nil]
      exact ⟨hcovers, (hg.retreats_begun hpg hfirst hne _).mono fun _ ht => Bool.or_inl ht⟩
    | some x =>
      rw [hparser, retreats_some] at hretreats
      obtain ⟨hlt, hcontinues⟩ := hretreats
      -- no other element begins where the parser has gone back to
      have hstops := stops_of_not_stops hdisjoint hcontinues
      have hrefuse := (parser_of_stops hpg hstops).2 hn
      have htrials : Parser.elementTrials g.parser g.trials x.rest = g.trials x.rest := by
        rw [Parser.elementTrials, hrefuse, List.append_nil]
      have helements : Parser.elements g.parser x.rest = ⟨[], [], x.rest⟩ := by
        rw [Parser.elements, hrefuse]
      have hrest := length_rest_lt hn hparser
      dsimp only
      rw [if_pos hrest, if_pos hrest, htrials, helements]
      exact ⟨covers_back hpg hstops hcovers hlt, retreats_some.mpr
        ⟨hlt, not_stops_mono (fun _ ht => Bool.or_inr ht) hcontinues⟩⟩

theorem comma_eq_none (hcomma : p (.symbol .comma) = false) (h : ¬ Stops p ts) :
    Parser.comma ts = none := by
  cases ts with
  | nil => rfl
  | cons t ts =>
    have hne : t.value ≠ .symbol .comma := by
      intro heq
      rw [stops_cons, heq] at h
      exact h hcomma
    simp [Parser.comma, Parser.token, hne]

theorem tracked_list (hp : (list g).Predictive) (hg : g.Tracked) : (list g).Tracked := by
  obtain ⟨hpg, hn, hcomma⟩ := hp
  have hcommas : (symbol .comma).Tracked := tracked_token _ _
  intro before ts
  change (Reader.list g.reader before ts).Tracks _ (Parser.list g.parser ts) _ before ts
  rw [Parser.list, trials_list]
  fun_induction Reader.list g.reader before ts with
  | case1 before ts a us vs tried hfirst separator rest tried' hseparated hlt ih =>
    rw [Parser.separatedTrials, Parser.separated, g.reader_agrees.read hfirst]
    dsimp only
    rw [Reader.agrees_comma.read hseparated]
    dsimp only
    rw [if_pos hlt, if_pos hlt, ← List.append_assoc]
    exact ih.following ((hg.read hfirst).append (hcommas.read hseparated)) _ (fun _ ht => ht)
      (k := (·.following (us ++ separator) (a :: ·))) fun _ => rfl
  | case2 before ts a us vs tried hfirst separator rest tried' hseparated hlt =>
    have hvs : vs.length < ts.length := length_rest_lt hn (g.reader_agrees.read hfirst)
    have hrest := congrArg List.length (hcommas.read hseparated).split
    rw [List.length_append] at hrest
    exact absurd (show rest.length < ts.length by omega) hlt
  | case3 before ts a us vs tried hfirst taken rest tried' hstuck =>
    obtain ⟨t, rest', hread⟩ | ⟨tried'', hstuck'⟩ := Reader.comma_cases tried vs
    · cases hstuck.symm.trans hread
    · cases hstuck.symm.trans hstuck'
      rw [Parser.separatedTrials, g.reader_agrees.read hfirst]
      dsimp only
      rw [Reader.agrees_comma.stuck hstuck, List.append_nil]
      have hcovers := (hg.read hfirst).append (hcommas.stuck_nil hstuck)
      rwa [List.append_nil] at hcovers
  | case4 before ts rest tried hfirst =>
    rw [Parser.separatedTrials, g.reader_agrees.stuck hfirst, List.append_nil]
    exact hg.stuck_nil hfirst
  | case5 before ts taken rest tried hne hfirst =>
    obtain ⟨hcovers, hretreats⟩ := hg.stuck hfirst
    rw [Parser.separatedTrials, Parser.separated]
    cases hparser : g.parser ts with
    | none =>
      rw [List.append_nil]
      exact ⟨hcovers, (hg.retreats_begun hpg hfirst hne _).mono fun _ ht =>
        Bool.or_inl (Bool.or_inl ht)⟩
    | some x =>
      rw [hparser, retreats_some] at hretreats
      obtain ⟨hlt, hcontinues⟩ := hretreats
      -- there is no comma where the parser has gone back to
      dsimp only
      rw [comma_eq_none hcomma hcontinues, List.append_nil]
      refine ⟨hcovers.back fun y hy => ?_, retreats_some.mpr ⟨hlt, ?_⟩⟩
      · rw [Parser.place_of_mem_tokenTrials hy]
        exact hlt
      · exact not_stops_mono (fun _ ht => Bool.or_inl (Bool.or_inr ht)) hcontinues

theorem tracked_map (hg : g.Tracked) (f : α → β) : (map f g).Tracked := by
  intro before ts
  change (Reader.map f g.reader before ts).Tracks (g.trials ts) (Parser.map f g.parser ts) _
    before ts
  rw [Reader.map, Parser.map]
  cases hfirst : g.reader before ts with
  | read a taken rest tried => exact hg.read hfirst
  | stuck taken rest tried =>
    obtain ⟨hcovers, hretreats⟩ := hg.stuck hfirst
    exact ⟨hcovers, hretreats.map fun _ => rfl⟩

theorem tracked_located (hg : g.Tracked) : (located g).Tracked := by
  intro before ts
  change (Reader.located g.reader before ts).Tracks (g.trials ts) (Parser.located g.parser ts) _
    before ts
  rw [Reader.located, Parser.located]
  cases hfirst : g.reader before ts with
  | read a taken rest tried => exact hg.read hfirst
  | stuck taken rest tried =>
    obtain ⟨hcovers, hretreats⟩ := hg.stuck hfirst
    exact ⟨hcovers, hretreats.map fun _ => rfl⟩

/-- The reader of a predictive grammar tracks the parser. -/
theorem tracked {g : Grammar α} (hp : g.Predictive) : g.Tracked := by
  induction g with
  | token expected accept => exact tracked_token expected accept
  | seq g h ihg ihh => exact tracked_seq hp (ihg hp.1) (ihh hp.2.1)
  | either g h ihg ihh => exact tracked_either hp (ihg hp.1) (ihh hp.2.1)
  | optional g ih => exact tracked_optional hp (ih hp.1)
  | many g ih => exact tracked_many hp (ih hp.1)
  | list g ih => exact tracked_list hp (ih hp.1)
  | map f g ih => exact tracked_map (ih hp) f
  | located g ih => exact tracked_located (ih hp)

/-- Reading that leaves something over has also tried the end. -/
theorem furthest_of_read (hp : g.Predictive) {a : α}
    (h : g.reader [] ts = .read a taken rest tried) (hne : rest ≠ []) :
    Furthest (g.inputTrials ts) rest (tried ++ [.endOfInput]) := by
  have hcovers := (tracked hp).read h
  have htrials : g.inputTrials ts = g.trials ts ++ [(rest, .endOfInput)] := by
    simp only [inputTrials, g.reader_agrees.read h, List.isEmpty_iff, if_neg hne]
  rw [htrials]
  refine ⟨fun x hx => ?_, fun e => ?_, by simp⟩
  · rcases List.mem_append.mp hx with hx | hx
    · exact hcovers.furthest x hx
    · obtain rfl := List.mem_singleton.mp hx
      exact Nat.le_refl _
  · rw [List.mem_append, List.mem_append, hcovers.tried]
    simp

/-- Where reading is stuck, a parser may have gone back, and then it tries the end further back. -/
theorem furthest_of_stuck (hp : g.Predictive) (h : g.reader [] ts = .stuck taken rest tried)
    (hne : tried ≠ []) : Furthest (g.inputTrials ts) rest tried := by
  obtain ⟨hcovers, hback⟩ := (tracked hp).stuck h
  have hend : Covers (g.inputTrials ts) [] ts taken rest tried := by
    refine hcovers.back fun y hy => ?_
    cases hparser : g.parser ts with
    | none => simp [hparser] at hy
    | some x =>
      simp only [hparser] at hy
      split at hy
      · cases hy
      · rw [List.mem_singleton.mp hy]
        exact (hback x hparser).1
  refine ⟨hend.furthest, fun e => ?_, hne⟩
  rw [hend.tried]
  simp

end Grammar

end Source

end TensorLoops
