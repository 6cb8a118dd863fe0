import Mathlib.Data.Set.Function
import Mathlib.Order.Interval.Set.Defs
import TensorLoops.Proofs.Permutations
import TensorLoops.Walk

namespace TensorLoops

namespace Layout

/-- The layout that holds, for each axis, the position at which this layout stores it. -/
def inverse (layout : Layout) : Layout := (List.range layout.length).map (layout.idxOf ·)

section EachAxisOnce

variable {layout : Layout} {n dim axis position : Nat} (h : List.Perm layout (List.range n))
include h

theorem length_of_perm : layout.length = n := h.length_eq.trans List.length_range

theorem nodup_of_perm : layout.Nodup := h.nodup_iff.mpr List.nodup_range

/-- Each axis is stored at some position. -/
theorem exists_getElem?_eq_some (haxis : axis < n) :
    ∃ position < n, layout[position]? = some axis := by
  have hmem : axis ∈ layout := h.mem_iff.mpr (List.mem_range.mpr haxis)
  obtain ⟨position, hposition⟩ := List.mem_iff_getElem?.mp hmem
  exact ⟨position, length_of_perm h ▸ (List.getElem?_eq_some_iff.mp hposition).1, hposition⟩

/-- What is stored at a position is an axis. -/
theorem exists_getElem?_lt (hposition : position < n) :
    ∃ axis < n, layout[position]? = some axis := by
  have hlt : position < layout.length := length_of_perm h ▸ hposition
  exact ⟨layout[position], List.mem_range.mp (h.mem_iff.mp (List.getElem_mem hlt)),
    List.getElem?_eq_getElem hlt⟩

/-- No axis is stored twice. -/
theorem position_unique {position' : Nat} (hp : layout[position]? = some axis)
    (hp' : layout[position']? = some axis) : position = position' :=
  (List.getElem?_inj (List.getElem?_eq_some_iff.mp hp).1 (nodup_of_perm h)).mp
    (hp.trans hp'.symm)

/-- An input is walked along the axis that is stored `dim` positions in front of the last one. -/
theorem inputAxis?_eq_some_iff :
    layout.inputAxis? dim = some axis ↔ dim < n ∧ layout[n - 1 - dim]? = some axis := by
  unfold inputAxis?
  rw [length_of_perm h]
  split
  · rename_i hdim
    simp only [hdim, true_and]
  · rename_i hdim
    simp [hdim]

/-- An output is walked along the position that stores the axis `dim` places before the last. -/
theorem outputAxis?_eq_some_iff :
    layout.outputAxis? dim = some axis ↔ dim < n ∧ layout[axis]? = some (n - 1 - dim) := by
  unfold outputAxis?
  rw [length_of_perm h]
  split
  · rename_i hdim
    rw [List.findIdx?_eq_some_iff_getElem]
    constructor
    · rintro ⟨hlt, hfound, -⟩
      exact ⟨hdim, List.getElem?_eq_some_iff.mpr ⟨hlt, eq_of_beq hfound⟩⟩
    · rintro ⟨-, haxis⟩
      obtain ⟨hlt, hfound⟩ := List.getElem?_eq_some_iff.mp haxis
      refine ⟨hlt, beq_iff_eq.mpr hfound, fun earlier hearlier hfirst => ?_⟩
      -- the search does not stop before, because the axis is stored nowhere else
      have hsame := List.getElem?_eq_some_iff.mpr ⟨Nat.lt_trans hearlier hlt, eq_of_beq hfirst⟩
      exact Nat.ne_of_lt hearlier (position_unique h hsame haxis)
  · rename_i hdim
    simp [hdim]

theorem getElem?_inverse :
    layout.inverse[axis]? = some position ↔ layout[position]? = some axis := by
  rw [inverse, length_of_perm h, List.getElem?_map, Option.map_eq_some_iff]
  constructor
  · rintro ⟨a, ha, rfl⟩
    obtain ⟨hlt, rfl⟩ := List.getElem?_eq_some_iff.mp ha
    have hmem : (List.range n)[axis] ∈ layout := h.mem_iff.mpr (List.getElem_mem hlt)
    rw [List.getElem?_eq_getElem (List.idxOf_lt_length_of_mem hmem), List.getElem_idxOf,
      List.getElem_range]
  · intro hposition
    obtain ⟨hlt, rfl⟩ := List.getElem?_eq_some_iff.mp hposition
    have haxis : layout[position] < n := List.mem_range.mp (h.mem_iff.mp (List.getElem_mem hlt))
    exact ⟨layout[position], List.getElem?_range haxis, (nodup_of_perm h).idxOf_getElem _ hlt⟩

/-- The inverse holds each position once. -/
theorem perm_inverse : List.Perm layout.inverse (List.range n) := by
  have hlen : layout.inverse.length = n := by
    rw [inverse, List.length_map, List.length_range, length_of_perm h]
  rw [← hlen]
  apply perm_range_of_nodup
  · refine List.nodup_range.map_on fun a ha b _ hab => ?_
    have hmem : a ∈ layout := h.mem_iff.mpr (length_of_perm h ▸ ha)
    exact (List.idxOf_inj hmem).mp hab
  · intro position hposition
    obtain ⟨axis, haxis, rfl⟩ := List.mem_map.mp hposition
    have hmem : axis ∈ layout := h.mem_iff.mpr (length_of_perm h ▸ haxis)
    rw [hlen, ← length_of_perm h]
    exact List.idxOf_lt_length_of_mem hmem

/-- Counted from the outermost one, an output takes the axis of an input back to its dimension. -/
theorem inputAxis?_eq_some_iff_outputAxis? (hdim : dim < n) (haxis : axis < n) :
    layout.inputAxis? dim = some axis ↔
      layout.outputAxis? (n - 1 - axis) = some (n - 1 - dim) := by
  have hback : n - 1 - (n - 1 - axis) = axis := by omega
  have hlt : n - 1 - axis < n := by omega
  simp only [inputAxis?_eq_some_iff h, outputAxis?_eq_some_iff h, hback, hdim, hlt, true_and]

/-- Walking an output is walking an input with the inverse layout. -/
theorem outputAxis?_eq_inputAxis?_inverse :
    layout.outputAxis? dim = layout.inverse.inputAxis? dim := by
  apply Option.ext
  intro axis
  rw [outputAxis?_eq_some_iff h, inputAxis?_eq_some_iff (perm_inverse h), getElem?_inverse h]

/-- The dimensions of an input belong to its axes one to one. -/
theorem bijOn_inputAxis? : Set.BijOn layout.inputAxis? (Set.Iio n) (some '' Set.Iio n) := by
  refine ⟨?_, ?_, ?_⟩
  · intro dim hdim
    rw [Set.mem_Iio] at hdim
    obtain ⟨axis, haxis, hstored⟩ := exists_getElem?_lt h (show n - 1 - dim < n by omega)
    exact ⟨axis, haxis, ((inputAxis?_eq_some_iff h).mpr ⟨hdim, hstored⟩).symm⟩
  · intro dim hdim dim' hdim' hsame
    rw [Set.mem_Iio] at hdim hdim'
    obtain ⟨axis, -, hstored⟩ := exists_getElem?_lt h (show n - 1 - dim < n by omega)
    have hwalked := (inputAxis?_eq_some_iff h).mpr ⟨hdim, hstored⟩
    obtain ⟨-, hstored'⟩ := (inputAxis?_eq_some_iff h).mp (hsame ▸ hwalked)
    have hposition := position_unique h hstored hstored'
    omega
  · rintro _ ⟨axis, haxis, rfl⟩
    obtain ⟨position, hlt, hstored⟩ := exists_getElem?_eq_some h haxis
    have hback : n - 1 - (n - 1 - position) = position := by omega
    exact ⟨n - 1 - position, Set.mem_Iio.mpr (by omega),
      (inputAxis?_eq_some_iff h).mpr ⟨by omega, hback.symm ▸ hstored⟩⟩

/-- So do those of an output. -/
theorem bijOn_outputAxis? : Set.BijOn layout.outputAxis? (Set.Iio n) (some '' Set.Iio n) :=
  (bijOn_inputAxis? (perm_inverse h)).congr fun _ _ => (outputAxis?_eq_inputAxis?_inverse h).symm

/-- There are no more dimensions than axes. -/
theorem axis?_eq_none (hdim : n ≤ dim) :
    layout.inputAxis? dim = none ∧ layout.outputAxis? dim = none := by
  have hnot : ¬ dim < layout.length := by
    rw [length_of_perm h]
    omega
  exact ⟨if_neg hnot, if_neg hnot⟩

end EachAxisOnce

end Layout

namespace Descriptor

variable {d : Descriptor} {direction : Direction} {n dim : Nat}

/-- A walk goes along the axis that the layout gives. -/
theorem axis?_of_walk {w : Walk} (hw : d.walk direction dim = .ok w) :
    d.axis? direction dim = some w.axis := by
  unfold walk at hw
  split at hw
  · rename_i axis haxis
    split at hw
    · cases hw
      exact haxis
    · cases hw
  · cases hw

section EachAxisOnce

variable (h : List.Perm d.layout (List.range n))
include h

theorem bijOn_axis? : Set.BijOn (d.axis? direction) (Set.Iio n) (some '' Set.Iio n) := by
  cases direction with
  | input => exact Layout.bijOn_inputAxis? h
  | output => exact Layout.bijOn_outputAxis? h

theorem dim_lt_of_axis? {axis : Nat} (haxis : d.axis? direction dim = some axis) : dim < n := by
  cases direction with
  | input => exact ((Layout.inputAxis?_eq_some_iff h).mp haxis).1
  | output => exact ((Layout.outputAxis?_eq_some_iff h).mp haxis).1

/-- Walks in different dimensions go along different axes. -/
theorem dim_eq_of_axis_eq {dim' : Nat} {w w' : Walk} (hw : d.walk direction dim = .ok w)
    (hw' : d.walk direction dim' = .ok w') (haxis : w.axis = w'.axis) : dim = dim' := by
  have ha := axis?_of_walk hw
  have ha' := axis?_of_walk hw'
  apply (bijOn_axis? h).injOn (dim_lt_of_axis? h ha) (dim_lt_of_axis? h ha')
  rw [ha, ha', haxis]

end EachAxisOnce

end Descriptor

theorem LoopPort.walk_of_descriptor {p : LoopPort} {g : Graph} {d : Descriptor}
    (hd : g.descriptor p.port = .ok d) : p.walk g = d.walk p.port.direction p.dim := by
  rw [LoopPort.walk, hd]

/-- In a layout that holds each of its `n` axes once, the dimensions below `n` belong to the axes
one to one: an input is walked along the axis at the position `n - 1 - dim`, an output along the
position of the axis `n - 1 - dim`. Counted from the outermost axis these two are inverse to each
other, and an output is walked like an input with the inverse layout. There is no further dimension,
and two dimensions of a port never lead along the same axis. -/
theorem Layout.axes_one_to_one {layout : Layout} {n : Nat}
    (h : List.Perm layout (List.range n)) :
    (∀ dim < n,
      (∃ axis < n, layout.inputAxis? dim = some axis ∧ layout[n - 1 - dim]? = some axis) ∧
      ∃ axis < n, layout.outputAxis? dim = some axis ∧ layout[axis]? = some (n - 1 - dim)) ∧
    (∀ dim ≥ n, layout.inputAxis? dim = none ∧ layout.outputAxis? dim = none) ∧
    Set.BijOn layout.inputAxis? (Set.Iio n) (some '' Set.Iio n) ∧
    Set.BijOn layout.outputAxis? (Set.Iio n) (some '' Set.Iio n) ∧
    (∀ dim < n, ∀ axis < n, layout.inputAxis? dim = some axis ↔
      layout.outputAxis? (n - 1 - axis) = some (n - 1 - dim)) ∧
    (List.Perm layout.inverse (List.range n) ∧
      (∀ axis position : Nat,
        layout.inverse[axis]? = some position ↔ layout[position]? = some axis) ∧
      ∀ dim, layout.outputAxis? dim = layout.inverse.inputAxis? dim) ∧
    ∀ (g : Graph) (p q : LoopPort) (d : Descriptor) (w w' : Walk),
      g.descriptor p.port = .ok d → d.layout = layout → q.port = p.port →
        p.walk g = .ok w → q.walk g = .ok w' → p.dim ≠ q.dim → w.axis ≠ w'.axis := by
  refine ⟨fun dim hdim => ⟨?_, ?_⟩, fun dim hdim => axis?_eq_none h hdim, bijOn_inputAxis? h,
    bijOn_outputAxis? h, fun _ hdim _ haxis => inputAxis?_eq_some_iff_outputAxis? h hdim haxis,
    ⟨perm_inverse h, fun _ _ => getElem?_inverse h, fun _ => outputAxis?_eq_inputAxis?_inverse h⟩,
    ?_⟩
  · obtain ⟨axis, haxis, hwalked⟩ := (bijOn_inputAxis? h).mapsTo hdim
    exact ⟨axis, haxis, hwalked.symm, ((inputAxis?_eq_some_iff h).mp hwalked.symm).2⟩
  · obtain ⟨axis, haxis, hwalked⟩ := (bijOn_outputAxis? h).mapsTo hdim
    exact ⟨axis, haxis, hwalked.symm, ((outputAxis?_eq_some_iff h).mp hwalked.symm).2⟩
  · intro g p q d w w' hd hlayout hport hw hw' hne haxis
    subst hlayout
    rw [LoopPort.walk_of_descriptor hd] at hw
    rw [LoopPort.walk_of_descriptor (hport.symm ▸ hd), hport] at hw'
    exact hne (Descriptor.dim_eq_of_axis_eq h hw hw' haxis)

/-- A load from a tensor with a layout that is not its own inverse. -/
def permutedLoad : Graph :=
  let stored : Descriptor := ⟨.f32, [.known 2, .known 3, .known 4, .known 5], [0, 2, 3, 1]⟩
  { expressions :=
      [⟨0, some "p", .parameter, [], [], [⟨stored, 0⟩]⟩,
        ⟨1, some "l", .load, [0, 1], [⟨stored, 0⟩], [⟨stored, 1⟩]⟩]
    connectors := [⟨⟨0, .output, 0⟩, [⟨1, .input, 0⟩]⟩, ⟨⟨1, .output, 0⟩, []⟩] }

theorem Layout.axes_one_to_one_permutedLoad :
    List.Perm [0, 2, 3, 1] (List.range 4) ∧
      (∃ axis < 4, outputAxis? [0, 2, 3, 1] 0 = some axis ∧ [0, 2, 3, 1][axis]? = some 3) ∧
      outputAxis? [0, 2, 3, 1] 0 = inputAxis? [0, 3, 1, 2] 0 ∧
      ∃ w w', (LoopPort.moving ⟨1, .output, 0⟩ 0).walk permutedLoad = .ok w ∧
        (LoopPort.moving ⟨1, .output, 0⟩ 1).walk permutedLoad = .ok w' ∧ w.axis ≠ w'.axis := by
  have h : List.Perm [0, 2, 3, 1] (List.range 4) := by decide
  obtain ⟨hwalked, -, -, -, -, ⟨-, -, hinverse⟩, hdiffer⟩ := axes_one_to_one h
  exact ⟨h, (hwalked 0 (by decide)).2, hinverse 0, _, _, rfl, rfl,
    hdiffer permutedLoad (.moving ⟨1, .output, 0⟩ 0) (.moving ⟨1, .output, 0⟩ 1) _ _ _
      rfl rfl rfl rfl rfl (by decide)⟩

end TensorLoops
