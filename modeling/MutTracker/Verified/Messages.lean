import MutTracker.Source.Realloc
import MutTracker.Verified.Midway

/-!
# What the handlers log

A trace reports nothing.  The warnings and the errors report the action and
what it was called with; the backtraces logged in between only lengthen them.

## Main results

* `Midway.trace`, `Midway.traceConsumer`, `Midway.usage`.
* `Midway.failure` — a producer's function returned 0.
* `Midway.fum`, `Midway.ffm`, `Midway.wum` — an error.
-/

namespace MutTracker.Source

open MutTracker.Logic MutTracker.Logic.Prog MutTracker.Logic.Keyed

variable {flags : Control} {m m₁ m₂ : Mut} {a : Routine} {b : Book} {ran : Passage}
  {t : Target} {held : List Nat} {bt : Option Nat} {E : Halt → Prop}

/-! ## Traces -/

/-- A backtrace that is logged is one of those referred to. -/
abbrev Owned (flags : Control) (refs : List Nat) (bt : Option Nat) : Prop :=
  flags.backtrace = true → ∃ k ∈ refs, bt = some k

theorem Control.Keeps.owned (hbt : flags.Keeps bt) (refs : List Nat) :
    Owned flags (bt.toList ++ refs) bt := fun hon => by
  obtain ⟨k, rfl⟩ := Option.isSome_iff_exists.1 (hbt.trans hon)
  exact ⟨k, by simp, rfl⟩

theorem mutTraceCall_spec {refs : List Nat} (hidle : m.process.log.Idle)
    (hsound : Sound m.mem refs) (hbt : Owned flags refs bt) (args : List Arg) :
    wp (mutTraceCall flags a args bt) (fun _ m' => Logs m [] m') E m := by
  rw [mutTraceCall, wp_whenever]
  split
  · simp only [wp_bind, wp_liftLogMut, mutLogInfo, wp_mutLogBegin hidle, wp_read, mutLogString,
      wp_mutLogArg, wp_mutLogArgs]
    refine wp_mono (logBacktrace_spec (m := m) hsound hbt) ?_ fun _ he => he
    rintro _ _ ⟨more, rfl⟩
    simp only [withLog_log, wp_mutLogEnd]
    exact ⟨_, rfl, .say hidle rfl⟩
  · exact ⟨m.process.log, rfl, .refl hidle⟩

theorem mutTraceConsumer_spec (hidle : m.process.log.Idle) (args : List Arg) :
    wp (mutTraceConsumer flags a args) (fun _ m' => Logs m [] m') E m := by
  rw [mutTraceConsumer, wp_whenever]
  split
  · simp only [wp_bind, wp_liftLogMut, mutLogInfo, wp_mutLogBegin hidle, wp_read, mutLogString,
      wp_mutLogArg, wp_mutLogArgs, wp_mutLogEnd]
    exact ⟨_, rfl, .say hidle rfl⟩
  · exact ⟨m.process.log, rfl, .refl hidle⟩

/-- What is logged without a report leaves the account alone. -/
theorem Midway.quiet {x : MutM Unit} (h : Midway flags m b ran t held m₁)
    (hx : wp x (fun _ m₂ => Logs m₁ [] m₂) E m₁) :
    wp x (fun _ m₂ => Midway flags m b ran t held m₂ ∧ m₂.resources = m₁.resources ∧
      m₂.mem = m₁.mem) E m₁ := by
  refine wp_mono hx ?_ fun _ he => he
  intro _ m₂ hl
  refine ⟨h.logs hl, ?_⟩
  obtain ⟨l', rfl, -⟩ := hl
  exact ⟨rfl, rfl⟩

theorem Midway.trace (h : Midway flags m b ran t held m₁)
    (hbt : Owned flags (held ++ refsOf m₁.resources.elems) bt) (args : List Arg) :
    wp (mutTraceCall flags a args bt)
      (fun _ m₂ => Midway flags m b ran t held m₂ ∧ m₂.resources = m₁.resources ∧
        m₂.mem = m₁.mem) E m₁ :=
  h.quiet (mutTraceCall_spec h.idle h.books.sound hbt args)

theorem Midway.traceConsumer (h : Midway flags m b ran t held m₁) (args : List Arg) :
    wp (mutTraceConsumer flags a args)
      (fun _ m₂ => Midway flags m b ran t held m₂ ∧ m₂.resources = m₁.resources ∧
        m₂.mem = m₁.mem) E m₁ :=
  h.quiet (mutTraceConsumer_spec h.idle args)

theorem Midway.usage (h : Midway flags m b ran t held m₁) :
    wp (whenever flags.usage (mutReportUsage flags))
      (fun _ m₂ => Midway flags m b ran t held m₂ ∧ m₂.resources = m₁.resources ∧
        m₂.mem = m₁.mem) E m₁ :=
  h.quiet (reportUsage_spec h.books h.idle)

/-! ## Warnings -/

/-- A whole message adds its report. -/
theorem Midway.say {msg : Message} {name : String} {args : List Arg}
    (h : Midway flags m b ran t held m₁) (hmsg : msg.report = some ⟨name, args⟩) :
    Midway flags m (b.report name args) ran t held (m₁.withLog (m₁.process.log.say msg)) := by
  have hsaid : Reported m₁.process.log [⟨name, args⟩] (m₁.process.log.say msg) :=
    .say h.idle (by rw [hmsg]; rfl)
  exact h.logs ⟨_, rfl, hsaid⟩

/-- A producer's function returned 0: that is reported, and the handler's
backtrace goes. -/
theorem Midway.failure {warning : String} {first : Arg} {rest : List Arg}
    (h : Midway flags m b ran t bt.toList m₁) (hready : Ready flags m) (ha : a ≠ .usage)
    (hbt : flags.Keeps bt) (hname : warning ≠ "MLK") (traced : List Arg) :
    wp (mutProducerFailure flags warning a traced (first :: rest) bt)
      (fun _ m₂ => Midway flags m (b.report warning [.string a.word, first]) ran t [] m₂) E
      m₁ := by
  have howned := hbt.owned (refsOf m₁.resources.elems)
  unfold mutProducerFailure
  refine wp_seq (h.trace howned traced) (fun _ he => he) ?_
  rintro _ m₂ ⟨h₂, hres, -⟩
  simp only [wp_bind, wp_liftLogMut, mutLogWarning, wp_mutLogBegin h₂.idle, wp_read,
    mutLogString, wp_mutLogArg, wp_mutLogArgs]
  refine wp_mono (logBacktrace_spec (m := m₂) h₂.books.sound (hres ▸ howned)) ?_ fun _ he => he
  rintro _ _ ⟨more, rfl⟩
  simp only [withLog_log, wp_mutLogEnd]
  refine wp_mono (Midway.closeBacktrace (h₂.say ?_) hbt) (fun _ _ h₃ => h₃.1) fun _ he => he
  simp [Message.report, hname, h₂.name hready ha]

/-! ## Errors -/

theorem Midway.fum (h : Midway flags m b ran t bt.toList m₁) (hready : Ready flags m)
    (ha : a ≠ .usage) (hbt : flags.Keeps bt) (addr : Word) :
    wp (mutLogFum flags addr a bt)
      (fun _ m₂ => Midway flags m (b.report "FUM" [.string a.word, .execAddr addr]) ran t
        bt.toList m₂ ∧ m₂.resources = m₁.resources ∧ m₂.mem = m₁.mem) E m₁ := by
  simp only [mutLogFum, wp_bind, wp_liftLogMut, mutLogError, wp_mutLogBegin h.idle, wp_read,
    mutLogString, mutLogExecAddr, wp_mutLogArg]
  refine wp_mono (logBacktrace_spec (m := m₁) h.books.sound (hbt.owned _)) ?_ fun _ he => he
  rintro _ _ ⟨more, rfl⟩
  simp only [withLog_log, wp_mutLogEnd]
  refine ⟨h.say ?_, rfl, rfl⟩
  simp [Message.report, h.name hready ha]

/-- A consumed object was given to a consumer that does not really free. -/
theorem Midway.ffm {o : Resource} {l₁ l₂ : List Resource}
    (h : Midway flags m b ran t bt.toList m₁) (hready : Ready flags m) (ha : a ≠ .usage)
    (hbt : flags.Keeps bt) (hfree : flags.free = false)
    (ho : Around flags m₁.resources m₁.mem bt.toList o l₁ l₂)
    (hconsumed : o.consumer.action.isSome) (addr : Word) :
    wp (mutLogFfm flags addr a o.ptr bt)
      (fun _ m₂ => Midway flags m (b.report "FFM" [.string a.word, .execAddr addr]) ran t
        bt.toList m₂ ∧ m₂.resources = m₁.resources ∧ m₂.mem = m₁.mem) E m₁ := by
  obtain ⟨c, hc⟩ := Option.isSome_iff_exists.1 hconsumed
  have hconsumer : Owned flags (bt.toList ++ refsOf m₁.resources.elems) o.consumer.backtrace := by
    intro hon
    have hsome : o.consumer.backtrace.isSome := by
      simpa [hon, hconsumed] using ho.ok.consumerBacktrace
    obtain ⟨k, hk⟩ := Option.isSome_iff_exists.1 hsome
    refine ⟨k, List.mem_append_right _ (List.mem_flatMap.2 ⟨o, ho.mem, ?_⟩), hk⟩
    simp [Resource.refs, hk]
  simp only [mutLogFfm, mutResourcesResourceDeleted, mutResourceConsumerName, wp_bind,
    wp_mutAssert, hfree, Bool.not_false, if_true, wp_resource ⟨ho.list, ho.ptr⟩, hc,
    Option.isSome_some, wp_actionName, wp_liftLogMut, mutLogError, wp_mutLogBegin h.idle,
    wp_read, mutLogString, mutLogExecAddr, wp_mutLogArg]
  refine wp_mono (logBacktrace_spec (m := m₁) h.books.sound (hbt.owned _)) ?_ fun _ he => he
  rintro _ _ ⟨more, rfl⟩
  simp only [withLog_log, wp_mutLogArg]
  refine wp_mono (logBacktrace_spec (m := m₁) h.books.sound hconsumer) ?_ fun _ he => he
  rintro _ _ ⟨more', rfl⟩
  simp only [withLog_log, wp_mutLogEnd]
  refine ⟨h.say ?_, rfl, rfl⟩
  simp [Message.report, h.name hready ha]

/-- A damaged mark was found around the object that `o` records. -/
theorem Midway.wum {o : Resource} {l₁ l₂ : List Resource}
    (h : Midway flags m b ran t bt.toList m₁) (hready : Ready flags m) (ha : a ≠ .usage)
    (hbt : flags.Keeps bt) (hcheck : flags.check = true)
    (ho : Around flags m₁.resources m₁.mem bt.toList o l₁ l₂) (addr zone value : Word) :
    wp (mutLogWum flags addr zone value a o.ptr bt)
      (fun _ m₂ => Midway flags m (b.report "WUM" [.string a.word, .execAddr addr]) ran t
        bt.toList m₂ ∧ m₂.resources = m₁.resources ∧ m₂.mem = m₁.mem) E m₁ := by
  obtain ⟨c, hc⟩ := Option.isSome_iff_exists.1 ho.ok.produced
  have hproducer : Owned flags (bt.toList ++ refsOf m₁.resources.elems) o.producer.backtrace := by
    intro hon
    obtain ⟨k, hk⟩ := Option.isSome_iff_exists.1 (ho.ok.producerBacktrace.trans hon)
    refine ⟨k, List.mem_append_right _ (List.mem_flatMap.2 ⟨o, ho.mem, ?_⟩), hk⟩
    simp [Resource.refs, hk]
  simp only [mutLogWum, mutResourceProducerName, wp_bind, wp_mutAssert, hcheck, if_true,
    wp_resource ⟨ho.list, ho.ptr⟩, hc, wp_actionName, wp_liftLogMut, mutLogError,
    wp_mutLogBegin h.idle, wp_read, mutLogString, mutLogExecAddr, mutLogUlong, mutLogUintHex,
    wp_mutLogArg]
  refine wp_mono (logBacktrace_spec (m := m₁) h.books.sound (hbt.owned _)) ?_ fun _ he => he
  rintro _ _ ⟨more, rfl⟩
  simp only [withLog_log, wp_mutLogArg]
  refine wp_mono (logBacktrace_spec (m := m₁) h.books.sound hproducer) ?_ fun _ he => he
  rintro _ _ ⟨more', rfl⟩
  simp only [withLog_log, wp_mutLogEnd]
  refine ⟨h.say ?_, rfl, rfl⟩
  simp [Message.report, h.name hready ha]

end MutTracker.Source
