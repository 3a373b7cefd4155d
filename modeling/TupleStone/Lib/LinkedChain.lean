import Mathlib.Data.List.Basic
import Mathlib.Data.List.Nodup
import Mathlib.Logic.Function.Basic
import Mathlib.Tactic.Common

/-! # Lists threaded through their own nodes

Every node names the next one, and a list ends at a mark. The nodes of a list that ends are all different.
-/

set_option autoImplicit false

namespace LinkedChain

variable {ι : Type}

/-- From `head` the links visit exactly `nodes` and end at the mark `stop`. -/
inductive Chain (link : ι → ι) (stop : ι) : ι → List ι → Prop where
  | nil : Chain link stop stop []
  | cons {node : ι} {nodes : List ι} (hNode : node ≠ stop) (hRest : Chain link stop (link node) nodes) :
      Chain link stop node (node :: nodes)

variable {link link' : ι → ι} {stop head : ι} {nodes : List ι}

theorem Chain.head_eq (h : Chain link stop head nodes) : head = nodes.headD stop := by
  cases h <;> rfl

/-- The links determine the list. -/
theorem Chain.unique {nodes' : List ι} (h : Chain link stop head nodes) (h' : Chain link stop head nodes') : nodes = nodes' := by
  induction h generalizing nodes' with
  | nil =>
    cases h' with
    | nil => rfl
    | cons hNode _ => exact absurd rfl hNode
  | cons hNode _ ih =>
    cases h' with
    | nil => exact absurd rfl hNode
    | cons _ hRest => rw [ih hRest]

theorem Chain.suffix (h : Chain link stop head nodes) {node : ι} (hMem : node ∈ nodes) :
    ∃ rest, Chain link stop node (node :: rest) ∧ (node :: rest) <:+ nodes := by
  induction h with
  | nil => exact absurd hMem List.not_mem_nil
  | @cons first nodes hNode hRest ih =>
    obtain rfl | hMem := List.mem_cons.mp hMem
    · exact ⟨nodes, .cons hNode hRest, List.suffix_refl _⟩
    · obtain ⟨rest, hChain, hSuffix⟩ := ih hMem
      exact ⟨rest, hChain, hSuffix.trans (List.suffix_cons _ _)⟩

/-- A node that came twice would begin two lists of different lengths. -/
theorem Chain.nodup (h : Chain link stop head nodes) : nodes.Nodup := by
  induction h with
  | nil => exact .nil
  | @cons node nodes hNode hRest ih =>
    refine List.nodup_cons.mpr ⟨fun hMem => ?_, ih⟩
    obtain ⟨rest, hChain, hSuffix⟩ := hRest.suffix hMem
    have hSame := List.cons.inj (hChain.unique (.cons hNode hRest))
    have hLength := hSuffix.length_le
    rw [hSame.2, List.length_cons] at hLength
    omega

/-- Links of other nodes do not matter. -/
theorem Chain.congr (h : Chain link stop head nodes) (hLinks : ∀ node ∈ nodes, link' node = link node) :
    Chain link' stop head nodes := by
  induction h with
  | nil => exact .nil
  | cons hNode _ ih =>
    obtain ⟨hHead, hTail⟩ := List.forall_mem_cons.mp hLinks
    exact .cons hNode (hHead ▸ ih hTail)

/-- A list that shares the links up to a node passes that node. -/
theorem Chain.passes (h : Chain link stop head nodes) {node : ι} (hMem : node ∈ nodes)
    (hLinks : ∀ other ∈ nodes, other ≠ node → link' other = link other) {nodes' : List ι}
    (h' : Chain link' stop head nodes') : ∃ rest, Chain link' stop node rest ∧ rest <:+ nodes' := by
  induction h generalizing nodes' with
  | nil => exact absurd hMem List.not_mem_nil
  | @cons first nodes hNode _ ih =>
    obtain rfl | hNe := eq_or_ne node first
    · exact ⟨nodes', h', List.suffix_refl _⟩
    · cases h' with
      | nil => exact absurd rfl hNode
      | @cons _ tail _ hTail =>
        rw [hLinks first List.mem_cons_self hNe.symm] at hTail
        obtain ⟨rest, hRest, hSuffix⟩ := ih ((List.mem_cons.mp hMem).resolve_left hNe)
          (fun other hOther => hLinks other (List.mem_cons_of_mem first hOther)) hTail
        exact ⟨rest, hRest, hSuffix.trans (List.suffix_cons _ _)⟩

/-- Put in front of the list it is on, a node makes the list endless. -/
theorem Chain.endless (h : Chain link stop head nodes) {node : ι} (hMem : node ∈ nodes)
    (hLinks : ∀ other ∈ nodes, other ≠ node → link' other = link other) (hFront : link' node = head) (nodes' : List ι) :
    ¬ Chain link' stop node nodes' := by
  intro h'
  have hSame := h'
  cases h' with
  | nil =>
    obtain ⟨_, hStop, -⟩ := h.suffix hMem
    cases hStop with
    | cons hNode _ => exact hNode rfl
  | cons _ hTail =>
    rw [hFront] at hTail
    obtain ⟨rest, hRest, hSuffix⟩ := h.passes hMem hLinks hTail
    have hLength := hSuffix.length_le
    rw [hRest.unique hSame, List.length_cons] at hLength
    omega

end LinkedChain
