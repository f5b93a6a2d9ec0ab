import MutTracker.Source.Run
import MutTracker.Verified.Runs

/-!
# The leaks

`mut_log_leaks` reports every resource that has no consumer.  From a tracker
that is ready nothing stops it, and its reports are the active entries, each
with its producer, size and address.

## Main results

* `mutLogLeaks_spec` — the reports of `mut_log_leaks`.
* `mem_leaks` — there is one for every active entry and no other.
-/

namespace MutTracker.Source

open MutTracker.Logic MutTracker.Logic.Prog MutTracker.Logic.Keyed

variable {flags : Control} {m : Mut} {E : Halt → Prop}

/-- The object has not been consumed. -/
def Entry.active (e : Entry) : Bool := e.consumer.isNone

/-- The report of an object that was never consumed. -/
def Entry.leak (e : Entry) : Report :=
  { name := "MLK"
    args := [.string (e.producer.elim "" Routine.word), .ulong e.size, .execAddr e.addr] }

/-- The reports of `mut_log_leaks`, in its order. -/
def leaks (es : List Entry) : List Report := (es.filter Entry.active).map Entry.leak

/-- Every object was made by `malloc`, `calloc` or `realloc`. -/
def Made (es : List Entry) : Prop := ∀ e ∈ es, ∃ a, e.producer = some a ∧ a.produces = true

/-- The tracker whether or not the process is still there: nothing is being logged and the
list of resources is in order. -/
structure Accounted (flags : Control) (m : Mut) : Prop where
  idle : m.process.log.Idle
  books : Books flags m.resources m.mem []
  names : ∀ a, a ≠ .usage → (m.actions a).name = a.word

theorem Ready.accounted (h : Ready flags m) : Accounted flags m := ⟨h.idle, h.books, h.names⟩

theorem Accounted.withLog {l : Log} (h : Accounted flags m) (hl : l.Idle) :
    Accounted flags (m.withLog l) :=
  ⟨hl, h.books, h.names⟩

theorem mutLogLeak_spec {r : Resource} (h : Accounted flags m) (hr : r ∈ m.resources.elems)
    (hmade : Made m.resources.entries) :
    wp (mutLogLeak flags r) (fun _ m' => Logs m [r.entry.leak] m') E m := by
  have hok := h.books.shelved.ok r hr
  obtain ⟨a, ha, hproduces⟩ := hmade r.entry (List.mem_map_of_mem hr)
  have ha : r.producer.action = some a := ha
  have hname : (m.actions a).name = a.word := h.names a (by rintro rfl; cases hproduces)
  have howned : flags.backtrace = true → ∃ k ∈ [] ++ refsOf m.resources.elems,
      r.producer.backtrace = some k := fun hon => by
    obtain ⟨k, hk⟩ := Option.isSome_iff_exists.1 (hok.producerBacktrace.trans hon)
    exact ⟨k, List.mem_flatMap.2 ⟨r, hr, by simp [Resource.refs, hk]⟩, hk⟩
  simp only [mutLogLeak, mutResourceProducerName, ha, wp_bind, wp_actionName, wp_liftLogMut,
    mutLogError, wp_mutLogBegin h.idle, mutLogString, mutLogExecAddr,
    mutLogUlong, wp_mutLogArg]
  refine wp_mono (logBacktrace_spec (m := m) h.books.sound howned) ?_ fun _ he => he
  rintro _ _ ⟨more, rfl⟩
  simp only [withLog_log, wp_mutLogEnd]
  refine ⟨_, rfl, .say h.idle ?_⟩
  simp [Message.report, Entry.leak, Resource.entry, ha, hname]

/-- The loop reports the active ones of the resources still to come. -/
theorem forEachResource_leaks (elems : List Resource) (h : Accounted flags m)
    (helems : ∀ r ∈ elems, r ∈ m.resources.elems) (hmade : Made m.resources.entries) :
    wp (forEachResource false (mutLogLeak flags) elems)
      (fun _ m' => Logs m (leaks (elems.map Resource.entry)).reverse m') E m := by
  induction elems generalizing m with
  | nil => exact ⟨m.process.log, rfl, .refl h.idle⟩
  | cons r elems ih =>
      have hrest : ∀ s ∈ elems, s ∈ m.resources.elems := fun s hs =>
        helems s (List.mem_cons_of_mem r hs)
      rw [forEachResource, wp_bind, wp_whenever, Bool.false_or]
      split
      · rename_i hactive
        have hleaks : leaks ((r :: elems).map Resource.entry) =
            r.entry.leak :: leaks (elems.map Resource.entry) := by
          rw [leaks, List.map_cons,
            List.filter_cons_of_pos (show r.entry.active = true from hactive)]
          rfl
        refine wp_mono (mutLogLeak_spec h (helems r List.mem_cons_self) hmade) ?_
          fun _ he => he
        rintro _ _ ⟨l, rfl, hl⟩
        refine wp_mono (ih (h.withLog hl.idle) hrest hmade) ?_ fun _ he => he
        rintro _ _ ⟨l', rfl, hl'⟩
        refine ⟨l', rfl, ?_⟩
        rw [hleaks, List.reverse_cons]
        exact hl.trans hl'
      · rename_i hactive
        have hleaks : leaks ((r :: elems).map Resource.entry) =
            leaks (elems.map Resource.entry) := by
          rw [leaks, List.map_cons,
            List.filter_cons_of_neg (show ¬ r.entry.active = true from hactive)]
          rfl
        rw [hleaks]
        exact ih h hrest hmade

/-- One report for each active entry, latest first. -/
theorem mutLogLeaks_spec (h : Accounted flags m) (hmade : Made m.resources.entries) :
    wp (mutLogLeaks flags) (fun _ m' => Logs m (leaks m.resources.entries).reverse m') E m :=
  forEachResource_leaks m.resources.elems h (fun _ hr => hr) hmade

/-- Nothing stops `mut_log_leaks`. -/
theorem mutLogLeaks_returns (hready : Ready flags m) (hmade : Made m.resources.entries) :
    ∃ m', mutLogLeaks flags m = .done () m' ∧
      m'.process.log.reports = (leaks m.resources.entries).reverse ++ m.process.log.reports := by
  obtain ⟨_, m', hdone, l, rfl, hl⟩ :=
    wp_returns (mutLogLeaks_spec (E := fun _ => False) hready.accounted hmade) fun _ => id
  exact ⟨_, hdone, hl.reports⟩

theorem mem_leaks {es : List Entry} {r : Report} :
    r ∈ leaks es ↔ ∃ e ∈ es, e.active = true ∧ r = e.leak := by
  simp only [leaks, List.mem_map, List.mem_filter, and_assoc, eq_comm]

/-- No two leaks are of one address. -/
theorem nodup_leaks {es : List Entry} (h : UniqueKeys Entry.addr es) : (leaks es).Nodup := by
  have haddrs : ((es.filter Entry.active).map Entry.addr).Nodup :=
    h.sublist (List.filter_sublist.map Entry.addr)
  have hlast : (leaks es).map (fun r => r.args.getLast?) =
      ((es.filter Entry.active).map Entry.addr).map fun addr => some (.execAddr addr) := by
    rw [leaks, List.map_map, List.map_map]
    rfl
  refine List.Nodup.of_map (fun r : Report => r.args.getLast?) ?_
  rw [hlast]
  refine haddrs.map fun addr addr' heq => ?_
  injection heq with heq
  injection heq

end MutTracker.Source
