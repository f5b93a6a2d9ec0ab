import Mathlib.Algebra.Order.Ring.Nat
import Mathlib.Data.Finset.Card
import Mathlib.Order.Interval.Finset.Nat
import MutTracker.Logic.Keyed

/-!
# The contract of an allocator

An allocator answers a request with an address or refuses it.  It is lawful if a
block that it hands out is inside the address space, and shares neither its address
nor a byte with a block that it has handed out before and not got back.  What it
answers may depend on the time and on all the blocks that are held.

## Main results

* `Packed.cons`, `Packed.remove`, `Packed.perm` — the blocks held stay apart.
* `Packed.sizes_le` — together they fit into the address space.
* `upwards_lawful` — there is a lawful allocator.
-/

namespace MutTracker.Logic.Allocator

/-- A block of `size` bytes. -/
structure Block where
  addr : BitVec 32
  size : BitVec 32
  deriving DecidableEq, Repr

variable {b c : Block} {held held' : List Block}

/-- The block has an address other than null, and ends inside the address space. -/
def Block.Inside (b : Block) : Prop := b.addr ≠ 0 ∧ b.addr.toNat + b.size.toNat ≤ 2 ^ 32

/-- Two blocks share neither their address nor a byte. -/
def Block.Apart (b c : Block) : Prop :=
  b.addr ≠ c.addr ∧
    (b.addr.toNat + b.size.toNat ≤ c.addr.toNat ∨ c.addr.toNat + c.size.toNat ≤ b.addr.toNat)

theorem Block.Apart.symm (h : b.Apart c) : c.Apart b := ⟨h.1.symm, h.2.symm⟩

/-- What the allocator answers at a time, with some blocks held, to a request. -/
abbrev Alloc := Nat → List Block → BitVec 32 → Option (BitVec 32)

def Lawful (alloc : Alloc) : Prop :=
  ∀ t held n a, alloc t held n = some a →
    (Block.mk a n).Inside ∧ ∀ b ∈ held, (Block.mk a n).Apart b

/-- The blocks held are apart and inside the address space. -/
structure Packed (held : List Block) : Prop where
  apart : held.Pairwise Block.Apart
  inside : ∀ b ∈ held, b.Inside

theorem Packed.nil : Packed [] := ⟨List.Pairwise.nil, nofun⟩

theorem Packed.cons (h : Packed held) (hb : b.Inside) (hapart : ∀ c ∈ held, b.Apart c) :
    Packed (b :: held) := by
  refine ⟨List.pairwise_cons.2 ⟨hapart, h.apart⟩, ?_⟩
  intro c hc
  rcases List.mem_cons.1 hc with rfl | hc
  · exact hb
  · exact h.inside c hc

/-- A lawful answer keeps the blocks apart. -/
theorem Packed.alloc {alloc : Alloc} {t : Nat} {n a : BitVec 32} (h : Packed held)
    (law : Lawful alloc) (ha : alloc t held n = some a) : Packed (⟨a, n⟩ :: held) :=
  h.cons (law t held n a ha).1 (law t held n a ha).2

theorem Packed.perm (h : Packed held) (hperm : held.Perm held') : Packed held' := by
  refine ⟨hperm.pairwise h.apart fun {_ _} => Block.Apart.symm, ?_⟩
  intro b hb
  exact h.inside b (hperm.mem_iff.2 hb)

/-- No two blocks have one address. -/
theorem Packed.unique (h : Packed held) : Keyed.UniqueKeys Block.addr held :=
  List.pairwise_map.2 (h.apart.imp fun hapart => hapart.1)

theorem Packed.remove (h : Packed held) (a : BitVec 32) :
    Packed (Keyed.remove Block.addr a held) :=
  ⟨h.apart.sublist List.eraseP_sublist, fun b hb => h.inside b (List.mem_of_mem_eraseP hb)⟩

/-- The bytes of the blocks. -/
def bytesOf : List Block → Finset Nat
  | [] => ∅
  | b :: held => Finset.Ico b.addr.toNat (b.addr.toNat + b.size.toNat) ∪ bytesOf held

theorem mem_bytesOf {x : Nat} :
    x ∈ bytesOf held ↔ ∃ b ∈ held, b.addr.toNat ≤ x ∧ x < b.addr.toNat + b.size.toNat := by
  induction held with
  | nil => simp [bytesOf]
  | cons b held ih => simp [bytesOf, ih]

/-- The blocks have as many bytes as their sizes say. -/
theorem Packed.card_bytesOf (h : Packed held) :
    (bytesOf held).card = (held.map fun b => b.size.toNat).sum := by
  induction held with
  | nil => rfl
  | cons b held ih =>
      obtain ⟨hb, hapart⟩ := List.pairwise_cons.1 h.apart
      have hrest : Packed held := ⟨hapart, fun c hc => h.inside c (List.mem_cons_of_mem b hc)⟩
      have hshared : ∀ x ∈ Finset.Ico b.addr.toNat (b.addr.toNat + b.size.toNat),
          x ∉ bytesOf held := by
        intro x hx hmem
        obtain ⟨c, hc, hge, hlt⟩ := mem_bytesOf.1 hmem
        have hin := Finset.mem_Ico.1 hx
        have haway := (hb c hc).2
        omega
      rw [bytesOf, Finset.card_union_of_disjoint (Finset.disjoint_left.2 fun {x} => hshared x),
        Nat.card_Ico, ih hrest, List.map_cons, List.sum_cons]
      omega

/-- The blocks held fit into the address space. -/
theorem Packed.sizes_le (h : Packed held) : (held.map fun b => b.size.toNat).sum ≤ 2 ^ 32 := by
  rw [← h.card_bytesOf, ← Finset.card_range (2 ^ 32)]
  apply Finset.card_le_card
  intro x hx
  obtain ⟨b, hb, _, hlt⟩ := mem_bytesOf.1 hx
  have hinside := (h.inside b hb).2
  rw [Finset.mem_range]
  omega

/-! ## A lawful allocator -/

/-- The first address above a number and all blocks, with a byte left between. -/
def top (low : Nat) : List Block → Nat
  | [] => low
  | b :: held => Nat.max (b.addr.toNat + b.size.toNat + 1) (top low held)

theorem le_top (low : Nat) (held : List Block) : low ≤ top low held := by
  induction held with
  | nil => exact Nat.le_refl low
  | cons b held ih => exact Nat.le_trans ih (Nat.le_max_right _ _)

theorem lt_top (low : Nat) (hb : b ∈ held) : b.addr.toNat + b.size.toNat < top low held := by
  induction held with
  | nil => exact absurd hb List.not_mem_nil
  | cons c held ih =>
      rcases List.mem_cons.1 hb with rfl | hb
      · exact Nat.le_max_left _ _
      · exact Nat.lt_of_lt_of_le (ih hb) (Nat.le_max_right _ _)

/-- The allocator that hands out what is above all blocks held. -/
def upwards : Alloc := fun _ held n =>
  if top 4096 held + n.toNat < 2 ^ 32 then some (BitVec.ofNat 32 (top 4096 held)) else none

theorem upwards_lawful : Lawful upwards := by
  intro t held n a h
  unfold upwards at h
  split at h
  · rename_i hroom
    have hlow := le_top 4096 held
    have haddr : a.toNat = top 4096 held := by
      rw [← Option.some.inj h, BitVec.toNat_ofNat]
      exact Nat.mod_eq_of_lt (by omega)
    have hne : ∀ c : BitVec 32, c.toNat < top 4096 held → a ≠ c := by
      intro c hc heq
      rw [heq] at haddr
      omega
    constructor
    · constructor
      · apply hne
        show 0 < top 4096 held
        omega
      · show a.toNat + n.toNat ≤ 2 ^ 32
        omega
    · intro b hb
      have hlt := lt_top 4096 hb
      constructor
      · exact hne b.addr (by omega)
      · right
        show b.addr.toNat + b.size.toNat ≤ a.toNat
        omega
  · exact absurd h nofun

end MutTracker.Logic.Allocator
