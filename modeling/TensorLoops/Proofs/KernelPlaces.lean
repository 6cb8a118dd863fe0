import TensorLoops.Proofs.Nodes
import TensorLoops.Proofs.Scanning
import TensorLoops.Proofs.SyntaxErrors

namespace TensorLoops

/-- The place of a part satisfies `P`, and the part satisfies `Q`. -/
structure Located.AllPlaces {α : Type} (P : Span → Prop) (Q : α → Prop) (l : Located α) : Prop where
  span : P l.span
  value : Q l.value

structure TensorType.AllPlaces (P : Span → Prop) (t : TensorType) : Prop where
  element : P t.element.span
  shape : ∀ extent ∈ t.shape, P extent.span
  layout : ∀ axes ∈ t.layout, P axes.span

structure Operand.AllPlaces (P : Span → Prop) (o : Operand) : Prop where
  value : P o.value.span
  type : ∀ t ∈ o.type, t.AllPlaces P (TensorType.AllPlaces P)

structure ExpressionDecl.AllPlaces (P : Span → Prop) (d : ExpressionDecl) : Prop where
  result : ∀ name ∈ d.result, P name.span
  operation : P d.operation.span
  operands : ∀ o ∈ d.operands, o.AllPlaces P (Operand.AllPlaces P)
  output : ∀ t ∈ d.output, t.AllPlaces P (TensorType.AllPlaces P)
  loops : ∀ number ∈ d.loops, P number.span

structure PortDecl.AllPlaces (P : Span → Prop) (d : PortDecl) : Prop where
  value : P d.value.span
  dim : P d.dim.span

structure LoopDecl.AllPlaces (P : Span → Prop) (d : LoopDecl) : Prop where
  id : P d.id.span
  workAmount : P d.workAmount.span
  ports : ∀ port ∈ d.ports, port.AllPlaces P (PortDecl.AllPlaces P)

def Item.AllPlaces (P : Span → Prop) : Item → Prop
  | .loop d => d.AllPlaces P (LoopDecl.AllPlaces P)
  | .expression d => d.AllPlaces P (ExpressionDecl.AllPlaces P)

/-- All places in a kernel satisfy `P`, that of the kernel included. -/
structure Kernel.AllPlaces (P : Span → Prop) (k : Kernel) : Prop where
  items : ∀ i ∈ k.items, i.AllPlaces P
  span : P k.span

namespace Kernel

variable {P : Span → Prop} {k : Kernel}

section Nodes

variable (h : ∀ n, k.HasNode n → P n.span)

include h

theorem HasNode.allPlaces_tensorType {l : Located TensorType} (hl : k.HasNode (.tensorType l)) :
    l.AllPlaces P (TensorType.AllPlaces P) := by
  have hparts : ∀ n ∈ l.value.nodes, P n.span := fun n hn => h n (hl.child hn)
  simp only [TensorType.nodes, List.forall_mem_cons, List.forall_mem_append, List.forall_mem_map,
    Option.mem_toList] at hparts
  obtain ⟨helement, hshape, hlayout⟩ := hparts
  exact ⟨h _ hl, helement, hshape, hlayout⟩

theorem HasNode.allPlaces_operand {l : Located Operand} (hl : k.HasNode (.operand l)) :
    l.AllPlaces P (Operand.AllPlaces P) := by
  have hparts : ∀ n ∈ l.value.nodes, k.HasNode n := fun n hn => hl.child hn
  simp only [Operand.nodes, List.forall_mem_cons, List.forall_mem_map, Option.mem_toList] at hparts
  obtain ⟨hvalue, htype⟩ := hparts
  exact ⟨h _ hl, h _ hvalue, fun t ht => (htype t ht).allPlaces_tensorType h⟩

theorem HasNode.allPlaces_expression {l : Located ExpressionDecl}
    (hl : k.HasNode (.expression l)) : l.AllPlaces P (ExpressionDecl.AllPlaces P) := by
  have hparts : ∀ n ∈ l.value.nodes, k.HasNode n := fun n hn => hl.child hn
  simp only [ExpressionDecl.nodes, List.forall_mem_cons, List.forall_mem_append,
    List.forall_mem_map, Option.mem_toList] at hparts
  obtain ⟨hresult, hoperation, hoperands, houtput, hloops⟩ := hparts
  exact ⟨h _ hl, fun name hname => h _ (hresult name hname), h _ hoperation,
    fun o ho => (hoperands o ho).allPlaces_operand h,
    fun t ht => (houtput t ht).allPlaces_tensorType h, fun number hn => h _ (hloops number hn)⟩

theorem HasNode.allPlaces_port {l : Located PortDecl} (hl : k.HasNode (.port l)) :
    l.AllPlaces P (PortDecl.AllPlaces P) := by
  have hparts : ∀ n ∈ l.value.nodes, P n.span := fun n hn => h n (hl.child hn)
  simp only [PortDecl.nodes, List.forall_mem_cons] at hparts
  obtain ⟨hvalue, hdim, -⟩ := hparts
  exact ⟨h _ hl, hvalue, hdim⟩

theorem HasNode.allPlaces_loop {l : Located LoopDecl} (hl : k.HasNode (.loop l)) :
    l.AllPlaces P (LoopDecl.AllPlaces P) := by
  have hparts : ∀ n ∈ l.value.nodes, k.HasNode n := fun n hn => hl.child hn
  simp only [LoopDecl.nodes, List.forall_mem_cons, List.forall_mem_map] at hparts
  obtain ⟨hid, hamount, hports⟩ := hparts
  exact ⟨h _ hl, h _ hid, h _ hamount, fun port hport => (hports port hport).allPlaces_port h⟩

/-- What holds of the places of all nodes, and of that of the kernel, holds of all places. -/
theorem allPlaces_of_nodes (hspan : P k.span) : k.AllPlaces P := by
  refine ⟨fun i hi => ?_, hspan⟩
  cases i with
  | loop l => exact (HasNode.item hi).allPlaces_loop h
  | expression l => exact (HasNode.item hi).allPlaces_expression h

end Nodes

end Kernel

namespace Source

/-- A place that does not begin inside a character. -/
def BeginsIn (source : String) (s : Span) : Prop := IsCharBoundary source s.start

variable {source : String}

theorem beginsIn_end (source : String) : BeginsIn source (.point source.utf8ByteSize) :=
  isCharBoundary_utf8ByteSize source

/-- What tokens cover begins where the first of them does. -/
theorem beginsIn_cover {ts : Tokens} (h : ts ⊆ (scan source).tokens) :
    BeginsIn source (cover ts) := by
  cases ts with
  | nil => exact isCharBoundary_zero source
  | cons t ts => exact isCharBoundary_of_mem_tokens (h List.mem_cons_self)

/-- All places in the kernel of a text begin on boundaries of the text. -/
theorem allPlaces_of_parse {kernel : Kernel} (h : (parse source).kernel = some kernel) :
    kernel.AllPlaces (BeginsIn source) := by
  obtain ⟨hderives, hspan⟩ := readKernel_eq_ok.mp (parse_kernel_eq_some.mp h)
  refine Kernel.allPlaces_of_nodes (fun n hn => ?_) ?_
  · obtain ⟨us, hus, -, hread⟩ := hn.exists_tokens hderives
    rw [Node.span_eq_cover hread]
    exact beginsIn_cover hus.subset
  · rw [hspan]
    unfold kernelSpan
    split
    · exact beginsIn_end source
    · exact beginsIn_cover (List.Subset.refl _)

/-- The error for tokens that are not read stands at one of them or at the end. -/
theorem span_of_readKernel_error {length : Nat} {ts : Tokens} {e : Located ParseError}
    (h : readKernel length ts = .error e) :
    (∃ t ∈ ts, e.span = t.span) ∨ e.span = .point length := by
  have hnot : ts ∉ Form.kernel.language := by
    rintro ⟨t, ht⟩
    rw [readKernel_eq_ok_iff_tree.mpr ⟨t, ht, rfl⟩] at h
    cases h
  obtain ⟨i, expected, -, -, -, hread⟩ := readKernel_fault hnot
  rw [hread] at h
  cases h
  unfold faultAt
  cases htoken : ts[i]? with
  | none => exact .inr rfl
  | some t => exact .inl ⟨t, List.mem_of_getElem? htoken, rfl⟩

theorem beginsIn_of_readKernel {e : Located ParseError}
    (h : readKernel source.utf8ByteSize (scan source).tokens = .error e) :
    BeginsIn source e.span := by
  rcases span_of_readKernel_error h with ⟨t, ht, hspan⟩ | hspan
  · rw [hspan]
    exact isCharBoundary_of_mem_tokens ht
  · rw [hspan]
    exact beginsIn_end source

/-- So do the places of what is wrong with the text. -/
theorem beginsIn_of_mem_errors {e : Located ParseError} (h : e ∈ (parse source).errors) :
    BeginsIn source e.span := by
  have hbad : ∀ e ∈ (scan source).badText.map (·.map ParseError.badText),
      BeginsIn source e.span :=
    List.forall_mem_map.mpr fun _ hbad => isCharBoundary_of_mem_badText hbad
  unfold parse at h
  dsimp only at h
  split at h
  · exact hbad e h
  · rename_i e' hread
    rcases List.mem_append.mp h with h | h
    · exact hbad e h
    · rw [List.mem_singleton.mp h]
      exact beginsIn_of_readKernel hread

end Source

end TensorLoops
