import MutTracker.Verified.Warnings

/-!
# Objects that realloc leaves in check mode

In check mode an object lies between two marks, one zone above the address of
its block, and that is the address the target is given for it.  `Renewed` is
what a `realloc` of an object should leave of this.  The handlers for objects
in the list leave the result of the function as it is, so none does.

## Main results

* `resized_unshifted` — the target receives the address of the block.
* `not_renewed` — no `realloc` of an object in the list leaves it as it should.
-/

namespace MutTracker.Source

open MutTracker.Logic MutTracker.Logic.Prog

variable {flags : Control} {m m' m₀ : Mut} {v : Visit} {vs : List Visit}

/-- The address of the object in the block that the function returned. -/
def Visit.object (v : Visit) : Word := v.tracker.result + mutZoneSize

/-- The object that the `realloc` handled in `v` was given is now an object
between two marks, in the block that the function returned. -/
structure Renewed (v : Visit) (m' : Mut) : Prop where
  recorded : m'.find v.object = some ⟨v.object, v.tracker.target.arg 1, some .realloc, none⟩
  received : m'.target.eax = v.object
  marked : m'.target.Intact v.object (v.tracker.target.arg 1)
  copied : ∀ e, v.tracker.find (v.tracker.target.arg 0) = some e →
    ∀ i, i < min e.size.toNat (v.tracker.target.arg 1).toNat →
      m'.target.data (v.object + BitVec.ofNat 32 i) =
        v.tracker.target.data (e.addr + BitVec.ofNat 32 i)

theorem Visit.object_ne (v : Visit) : v.tracker.result ≠ v.object := by
  unfold Visit.object mutZoneSize
  bv_omega

/-- The handler gives the target the address of the block, not of an object in
it. -/
theorem Step.received (hs : Step flags m v m') (htyped : Typed m)
    (hresizes : v.tracker.Resizes v.routine) : m'.target.eax = v.tracker.result :=
  (hs.acts htyped).answers rfl hresizes

theorem Renewed.shifted (h : Renewed v m') (heax : m'.target.eax = v.tracker.result) : False :=
  v.object_ne (heax.symm.trans h.received)

/-- After any run, whatever the flags, a `realloc` of an object in the list that
is handled with success does not leave it as it should. -/
theorem not_renewed (hopen : Opened flags m₀) (hrun : Run (Step flags) m₀ vs m)
    (hs : Step flags m v m') (hresizes : v.tracker.Resizes v.routine) :
    m'.target.eax = v.tracker.result ∧ ¬ Renewed v m' := by
  have htyped : Typed m := by
    refine hrun.invariant (I := Typed) hopen.ready.types ?_
    intro t l t' ht hl
    exact hl.typed ht
  have heax := hs.received htyped hresizes
  exact ⟨heax, fun hrenewed => hrenewed.shifted heax⟩

/-! ## A realloc of a small object -/

/-- A call of `realloc` for the object of a small target. -/
def Target.resizing : Target := .calling 0x2004 8

theorem resizing_arg : Target.resizing.arg 0 = 0x2004 := by decide +kernel

theorem resizing_returns : (Mut.small .checking .resizing
    [Target.resizing.answers 0x3000]).returning.isSome := by decide +kernel

/-- The object of a small target is given to `realloc`, which returns a block at
0x3000. -/
theorem small_resized :
    ∃ m m' : Mut, ∃ v : Visit,
      Run (Step .checking) (mallocCall .checking) [⟨.malloc, mallocCall .checking⟩] m ∧
        Step .checking m v m' ∧ v.tracker.Gives .realloc smallObject ∧
        v.tracker.Resizes v.routine ∧ v.tracker.result = 0x3000 := by
  obtain ⟨t', m, hs, hfresh, hserved⟩ := small_served .checking (.calling 8 0)
    [(Target.calling 8 0).answers 0x2000] (a := .malloc) nofun rfl (by decide) rfl
  have hentries : m.book.entries = [smallObject] := congrArg Book.entries hserved.midway.book
  obtain ⟨mh, hmh⟩ : ∃ mh : Mut, mh = m.reaches .resizing [Target.resizing.answers 0x3000] :=
    ⟨_, rfl⟩
  have harg : mh.target.arg 0 = 0x2004 := by rw [hmh]; exact resizing_arg
  have hresult : mh.result = 0x3000 := by rw [hmh]; rfl
  have hbetween : Between m mh := hmh ▸ reaches_between hserved.midway.status _ _
  have hready : Ready .checking mh :=
    hbetween.ready (hs.ready (small_opened ..).ready (hfresh _ List.mem_cons_self))
  obtain ⟨hsmooth, hroot⟩ := small_again (c := .realloc) hserved .resizing
    [Target.resizing.answers 0x3000] fun _ => resizing_returns
  rw [← hmh] at hsmooth hroot
  have hlisted : .realloc ∈ mh.root := by
    rw [hroot]
    simp [Mut.small]
  have hfind (addr : Word) : mh.find addr = Keyed.get Entry.addr addr [smallObject] := by
    rw [hmh, ← hentries]
    rfl
  have hfound : mh.find (mh.target.arg 0) = some smallObject := by
    rw [harg, hfind]
    rfl
  have hnonzero : mh.target.arg 0 ≠ 0 := by
    rw [harg]
    decide
  have hgives : mh.Gives .realloc smallObject := ⟨rfl, hnonzero, hfound, rfl⟩
  have hresizes : mh.Resizes .realloc := ⟨rfl, hnonzero, by rw [hfound]; rfl⟩
  have hnew : mh.find (mh.recorded .checking .realloc) = none := by
    rw [Mut.recorded, if_pos ⟨rfl, hresizes.nonzero, hresizes.known⟩, hresult, hfind]
    rfl
  have hmet : ¬ Unmet .checking mh .realloc := fun hunmet =>
    absurd (hresult.symm.trans hunmet.zero) (by decide)
  have hwhole : ¬ Damaged .checking mh .realloc := fun hdamaged => by
    rcases hdamaged.consumer with h | h <;> cases h
  have hmoved : ¬ Unmoved .checking mh .realloc := fun hunmoved =>
    absurd (hresult.symm.trans (hunmoved.result.trans harg)) (by decide)
  have haligned : Aligned mh .realloc := by
    refine ⟨fun _ e he => ?_, fun _ => by rw [hresult]; rfl⟩
    rw [← Option.some.inj (hfound.symm.trans he)]
    rfl
  obtain ⟨t₂, m', hdone, -⟩ := mutHandle_returns hready hlisted (fun _ _ => .inl hnew) hsmooth
    hmet hwhole (hgives.not_stuck hmoved) haligned
  exact ⟨m, m', ⟨.realloc, mh⟩, .next .start hs, ⟨hbetween, hlisted, hdone⟩, hgives, hresizes,
    hresult⟩

theorem not_renewed_small :
    ∃ m' : Mut, ∃ v : Visit, v.tracker.Resizes v.routine ∧ ¬ Renewed v m' := by
  obtain ⟨m, m', v, hrun, hs, -, hresizes, -⟩ := small_resized
  exact ⟨m', v, hresizes, (not_renewed (small_opened ..) hrun hs hresizes).2⟩

/-- The tracker gives the target the address 0x3000 of the block, and not that
of an object between marks. -/
theorem resized_unshifted :
    ∃ m m' : Mut, ∃ v : Visit,
      Run (Step .checking) (mallocCall .checking) [⟨.malloc, mallocCall .checking⟩] m ∧
        Step .checking m v m' ∧ v.tracker.Gives .realloc smallObject ∧
        v.tracker.result = 0x3000 ∧ m'.target.eax = 0x3000 ∧ ¬ Renewed v m' := by
  obtain ⟨m, m', v, hrun, hs, hgives, hresizes, hresult⟩ := small_resized
  have htyped : Typed m := by
    refine hrun.invariant (I := Typed) (fun _ _ => rfl) ?_
    intro t l t' ht hl
    exact hl.typed ht
  have heax := hs.received htyped hresizes
  exact ⟨m, m', v, hrun, hs, hgives, hresult, heax.trans hresult, fun h => h.shifted heax⟩

end MutTracker.Source
