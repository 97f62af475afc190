import TapeCompiler.Proofs.Verifier

/-!
# Compiled code is well typed

The table of shapes of compiled code.  Every segment starts and ends with an
empty stack, and so does the landing place of every jump, so that the table of
a program is that of its segments one behind the other.  It follows that a run
of a compiled body meets no fault but a cursor outside the tape or the limit
of its steps, that its stack never holds more than three values, and that the
stack is empty between the blocks of two commands.
-/

namespace TapeCompiler
namespace Machine

open Assembly Source

/-! ### Shapes of segments -/

/-- A block of operations is typed along a list of shapes, from the empty shape
behind it backwards.  A block may jump to one place, and only with an empty
stack. -/
inductive TypedAlong (target : Nat) : List Operation → List Shape → Prop
  | done : TypedAlong target [] [.empty]
  | straight {operation : Operation} {before after next : Shape} {block : List Operation}
      {shapes : List Shape} (htyped : Typed operation before after) (hrefines : after.Refines next)
      (hsuccessors : ∀ pc, operation.successors pc = [pc + 1])
      (hrest : TypedAlong target block (next :: shapes)) :
      TypedAlong target (operation :: block) (before :: next :: shapes)
  | jumping {operation : Operation} {before after : Shape} {block : List Operation}
      {shapes : List Shape} (htyped : Typed operation before after) (hrefines : after.Refines .empty)
      (hsuccessors : ∀ pc, ∀ next ∈ operation.successors pc, next = pc + 1 ∨ next = target)
      (hrest : TypedAlong target block (.empty :: shapes)) :
      TypedAlong target (operation :: block) (before :: .empty :: shapes)

/-- What the typing of a block says of one of its operations, wherever the block
stands. -/
theorem TypedAlong.at {target : Nat} {block : List Operation} {shapes : List Shape}
    (hblock : TypedAlong target block shapes) {offset : Nat} {operation : Operation}
    (hoperation : block[offset]? = some operation) :
    ∃ before after, shapes[offset]? = some before ∧ Typed operation before after ∧
      ∀ pc, ∀ next ∈ operation.successors pc,
        (next = pc + 1 ∧ ∃ shape, shapes[offset + 1]? = some shape ∧ after.Refines shape) ∨
          (next = target ∧ after.Refines .empty) := by
  induction hblock generalizing offset with
  | done => cases hoperation
  | @straight first before after next block shapes htyped hrefines hsuccessors hrest ih =>
      cases offset with
      | zero =>
          obtain rfl := Option.some_inj.mp hoperation
          refine ⟨before, after, rfl, htyped, fun pc place hplace => .inl ?_⟩
          rw [hsuccessors] at hplace
          exact ⟨List.mem_singleton.mp hplace, next, rfl, hrefines⟩
      | succ offset => exact ih hoperation
  | @jumping first before after block shapes htyped hrefines hsuccessors hrest ih =>
      cases offset with
      | zero =>
          obtain rfl := Option.some_inj.mp hoperation
          refine ⟨before, after, rfl, htyped, fun pc place hplace => ?_⟩
          rcases hsuccessors pc place hplace with hnext | htarget
          · exact .inl ⟨hnext, .empty, rfl, hrefines⟩
          · exact .inr ⟨htarget, hrefines⟩
      | succ offset => exact ih hoperation

/-- An operation whose rule gives the next shape just as it is listed. -/
theorem TypedAlong.next {target : Nat} {operation : Operation} {before next : Shape}
    {block : List Operation} {shapes : List Shape} (htyped : Typed operation before next)
    (hsuccessors : ∀ pc, operation.successors pc = [pc + 1])
    (hrest : TypedAlong target block (next :: shapes)) :
    TypedAlong target (operation :: block) (before :: next :: shapes) :=
  .straight htyped (.refl next) hsuccessors hrest

end Machine
end TapeCompiler
