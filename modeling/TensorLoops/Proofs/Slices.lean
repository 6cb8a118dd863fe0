import TensorLoops.Proofs.Concatenation
import TensorLoops.Proofs.Nodes
import TensorLoops.Proofs.TokenPlaces

namespace TensorLoops

namespace Source

variable {ts us vs : Tokens}

namespace Grammar

theorem items_unique {is js : List Item} (h : items.Derives ts is) (h' : items.Derives ts js) :
    is = js := by
  have hread : readKernel 0 ts = .ok ⟨is, kernelSpan 0 ts⟩ := readKernel_eq_ok.mpr ⟨h, rfl⟩
  have hread' : readKernel 0 ts = .ok ⟨js, kernelSpan 0 ts⟩ := readKernel_eq_ok.mpr ⟨h', rfl⟩
  rw [hread] at hread'
  cases hread'
  rfl

theorem derives_singleton {i : Item} : items.Derives ts [i] ↔ i.node.ReadFrom ts := by
  constructor
  · intro h
    cases show Repeated item.Derives ts [i] from h with
    | cons head tail =>
      cases tail
      rw [List.append_nil]
      rcases head with ⟨l, hl, rfl⟩ | ⟨l, hl, rfl⟩
      · exact hl
      · exact hl
  · intro h
    have hitem : item.Derives ts i := by
      cases i with
      | loop l => exact .inl ⟨l, h, rfl⟩
      | expression l => exact .inr ⟨l, h, rfl⟩
    have hitems : Repeated item.Derives (ts ++ []) [i] := .cons hitem .nil
    rwa [List.append_nil] at hitems

end Grammar

/-- A text that is cut into tokens behind another one is cut into them alone, at places that are
counted from its own beginning. -/
theorem scan_of_cut_behind {front middle : List Char}
    (h : Cut front middle (us.map (·.map Lexeme.token))) :
    (scan (.ofList middle)).badText = [] ∧
      (scan (.ofList middle)).tokens.map (·.shift (byteLength front)) = us := by
  have hlexemes : us.map (·.map Lexeme.token) =
      (lexemesFrom 0 middle).map (·.shift (byteLength front)) := by
    rw [h.eq_lexemesFrom, ← lexemesFrom_shift, Nat.zero_add]
  rw [scan_eq, String.toList_ofList]
  constructor
  · have hbad := badParts_map_token us
    rw [hlexemes, badParts_shift] at hbad
    exact List.map_eq_nil_iff.mp hbad
  · rw [← tokenParts_shift, ← hlexemes, tokenParts_map_token]

/-- From the text at the place of the tokens of an item only that item is read. -/
theorem parse_slice {source : String} {i : Item} (hbad : (scan source).badText = [])
    (htokens : (scan source).tokens = ts ++ us ++ vs) (hne : us ≠ []) (hi : i.node.ReadFrom us) :
    ∃ i' : Item, i'.shift (cover us).start = i ∧
      parse (slice source (cover us)) = ⟨some ⟨[i'], i'.node.span⟩, []⟩ := by
  have hcut := cut_tokens hbad
  rw [htokens] at hcut
  obtain ⟨front, middle, rest, htext, hcover, hmiddle⟩ := hcut.exists_slice hne
  obtain ⟨hbad', htokens'⟩ := scan_of_cut_behind hmiddle
  rw [hcover, slice_of_append htext]
  -- the tokens of the item, moved back to the front, are all that the text at its place has
  have hmoved := Grammar.exists_items_of_move (.back (byteLength front))
    (Grammar.derives_singleton.mpr hi)
  rw [← htokens', map_moveToken_back] at hmoved
  obtain ⟨is, his⟩ := hmoved
  -- and what is read from them, moved to where they stand, is the item
  have hshifted := Grammar.derives_shift_items (byteLength front) his
  rw [htokens'] at hshifted
  have hitems := Grammar.items_unique hshifted (Grammar.derives_singleton.mpr hi)
  obtain ⟨i', rfl, hshift⟩ := List.map_eq_singleton_iff.mp hitems
  refine ⟨i', hshift, parse_eq_some_iff.mpr ⟨hbad', his, ?_⟩⟩
  have hsome : (scan (.ofList middle)).tokens ≠ [] := by
    rintro hnil
    rw [hnil] at htokens'
    exact hne htokens'.symm
  rw [Node.span_eq_cover (Grammar.derives_singleton.mp his), kernelSpan,
    if_neg (by simpa using hsome)]

end Source

end TensorLoops
