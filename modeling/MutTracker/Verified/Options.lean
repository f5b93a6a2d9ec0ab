import MutTracker.Source.Ui
import MutTracker.Verified.Log

/-!
# The command line

Which command lines the program takes, as a grammar: words of options, and the words of the
program to run, of which the first does not begin with a dash.  An option is a word of flags
or a letter with a value.  What is asked for does not depend on how the flags are grouped or
in which order they come, and of several values for one letter the last one counts.

## Main results

* `options_run`, `refused_run` — what the words of the grammar do, and those that are not.
* `grammar_total` — a command line is one or the other.
* `options_exact` — the program takes the command lines of the grammar, as they are meant,
  and refuses all others with a message that names what is wrong.
* `options_round_trip` — whatever can be asked for can be written.
-/

namespace MutTracker.Source

open MutTracker.Logic MutTracker.Logic.Prog

/-! ## The grammar -/

def flagLetters : List Char := ['r', 'f', 't', 'b', 'c', 's', 'u', 'z']

def valueLetters : List Char := ['o', 'x', 'n', 'U']

/-- An option: flags, or a letter with its value. -/
inductive Opt where
  | flags (letters : List Char) (known : ∀ c ∈ letters, c ∈ flagLetters)
  | value (letter : Char) (known : letter ∈ valueLetters) (text : List Char)

namespace Opt

/-- The letters of the word after the dash. -/
def letters : Opt → List Char
  | flags letters _ => letters
  | value letter _ text => letter :: text

/-- How it is written. -/
def word (o : Opt) : String := String.ofList ('-' :: o.letters)

def flagsOf : Opt → List Char
  | flags letters _ => letters
  | value _ _ _ => []

def valueOf (c : Char) : Opt → Option String
  | flags _ _ => none
  | value letter _ text => if letter = c then some (String.ofList text) else none

end Opt

/-- Whether a word is meant as an option. -/
def isOption (w : String) : Prop := w.toList.head? = some '-'

/-- The last of the values that are given for a letter. -/
def lastValue (c : Char) (opts : List Opt) : Option String :=
  (opts.filterMap (Opt.valueOf c)).getLast?

/-- The flags that are set after these letters. -/
def Control.given (letters : List Char) (k : Control) : Control where
  trace := letters.contains 't' || k.trace
  backtrace := letters.contains 'b' || k.backtrace
  free := letters.contains 'f' || k.free
  stats := letters.contains 's' || k.stats
  zero := letters.contains 'z' || k.zero
  usage := letters.contains 'u' || k.usage
  check := letters.contains 'c' || k.check

/-- What some options ask for, with the words of the program. -/
def ArgInfo.given (opts : List Opt) (argv : List String) (i : ArgInfo) : ArgInfo where
  argv := argv
  logFileName := (lastValue 'o' opts).or i.logFileName
  mutName := (lastValue 'n' opts).or i.mutName
  flags := i.flags.given (opts.flatMap Opt.flagsOf)
  undesirableSuffix := (lastValue 'x' opts).getD i.undesirableSuffix
  usageFunction := (lastValue 'U' opts).or i.usageFunction

def Ui.given (opts : List Opt) (argv : List String) (u : Ui) : Ui where
  log := u.log
  info := u.info.given opts argv
  memReport := (opts.flatMap Opt.flagsOf).contains 'r' || u.memReport

/-- The command lines that are refused, and why: there is no program, a letter that takes a
value comes after another letter, or a letter is not known. -/
inductive Misspelt : List String → Message → Prop
  | program (opts : List Opt) :
      Misspelt (opts.map Opt.word) ⟨.fatal 0, "args.usage", [.string "exec-file-name"]⟩
  | place (opts : List Opt) (fs : List Char) (hfs : fs ≠ [])
      (hflags : ∀ c ∈ fs, c ∈ flagLetters) (c : Char) (hc : c ∈ valueLetters) (arg : List Char)
      (rest : List String) :
      Misspelt (opts.map Opt.word ++ String.ofList ('-' :: (fs ++ c :: arg)) :: rest)
        ⟨.fatal 0, "args.opt",
          [.string (String.singleton c), .string (String.ofList ('-' :: (fs ++ c :: arg)))]⟩
  | letter (opts : List Opt) (fs : List Char) (hflags : ∀ c ∈ fs, c ∈ flagLetters) (c : Char)
      (hflag : c ∉ flagLetters) (hvalue : c ∉ valueLetters) (arg : List Char)
      (rest : List String) :
      Misspelt (opts.map Opt.word ++ String.ofList ('-' :: (fs ++ c :: arg)) :: rest)
        ⟨.fatal 0, "args.unknown", [.string (String.ofList ('-' :: (fs ++ c :: arg)))]⟩

variable {u u' : Ui} {word : String} {fs arg : List Char} {c : Char} {opts : List Opt}
  {argv : List String} {msg : Message}

/-! ## What options mean -/

theorem given_append (fs fs' : List Char) (k : Control) :
    (k.given fs).given fs' = k.given (fs ++ fs') := by
  simp only [Control.given, List.contains_append, Control.mk.injEq]
  refine ⟨?_, ?_, ?_, ?_, ?_, ?_, ?_⟩ <;> rw [← Bool.or_assoc, Bool.or_comm (fs'.contains _)]

theorem lastValue_cons (c : Char) (o : Opt) (opts : List Opt) :
    lastValue c (o :: opts) = (lastValue c opts).or (o.valueOf c) := by
  unfold lastValue
  rw [List.filterMap_cons]
  cases hvalue : o.valueOf c with
  | none => rw [Option.or_none]
  | some v =>
      rw [List.getLast?_cons]
      cases (opts.filterMap (Opt.valueOf c)).getLast? with
      | none => rfl
      | some w => rfl

/-- The options before a command line. -/
theorem given_cons (o : Opt) (opts : List Opt) (argv ws : List String) (u : Ui) :
    u.given (o :: opts) argv = (u.given [o] ws).given opts argv := by
  simp only [Ui.given, ArgInfo.given, lastValue_cons, List.flatMap_cons, List.flatMap_nil,
    List.append_nil, given_append, List.contains_append, Ui.mk.injEq, ArgInfo.mk.injEq, true_and]
  have hnone : ∀ c, lastValue c [] = none := fun _ => rfl
  refine ⟨⟨?_, ?_, ?_, ?_⟩, ?_⟩
  · rw [hnone, Option.none_or, Option.or_assoc]
  · rw [hnone, Option.none_or, Option.or_assoc]
  · rw [hnone, Option.none_or]
    cases lastValue 'x' opts <;> rfl
  · rw [hnone, Option.none_or, Option.or_assoc]
  · rw [← Bool.or_assoc, Bool.or_comm (o.flagsOf.contains 'r')]

/-! ## One word -/

/-- A letter that is a flag. -/
theorem optionLoop_flag (hc : c ∈ flagLetters) (first : Bool) (h : ∀ d ∈ [c], d ∈ flagLetters) :
    mutUiOptionLoop word first (c :: arg) u =
      mutUiOptionLoop word false arg (u.given [.flags [c] h] u.info.argv) := by
  simp only [flagLetters, List.mem_cons, List.not_mem_nil, or_false] at hc
  rcases hc with rfl | rfl | rfl | rfl | rfl | rfl | rfl | rfl <;> rfl

/-- Several of them. -/
theorem optionLoop_flags (hfs : ∀ d ∈ fs, d ∈ flagLetters) (first : Bool) :
    mutUiOptionLoop word first (fs ++ arg) u =
      mutUiOptionLoop word (first && fs.isEmpty) arg (u.given [.flags fs hfs] u.info.argv) := by
  induction fs generalizing first u with
  | nil => rw [List.isEmpty_nil, Bool.and_true]; rfl
  | cons c fs ih =>
      have hrest : ∀ d ∈ fs, d ∈ flagLetters := fun d hd => hfs d (List.mem_cons_of_mem c hd)
      have hone : ∀ d ∈ [c], d ∈ flagLetters := by
        intro d hd
        rw [List.mem_singleton.1 hd]
        exact hfs c List.mem_cons_self
      rw [List.cons_append, optionLoop_flag (hfs c List.mem_cons_self) first hone, ih hrest,
        Bool.false_and, List.isEmpty_cons, Bool.and_false]
      congr 1
      simp only [Ui.given, ArgInfo.given, lastValue, Opt.valueOf, Opt.flagsOf, List.filterMap_cons,
        List.filterMap_nil, List.flatMap_cons, List.flatMap_nil, List.append_nil, given_append,
        List.getLast?_nil, Option.none_or, Option.getD_none, List.singleton_append, Ui.mk.injEq,
        true_and]
      rw [← Bool.or_assoc, Bool.or_comm (fs.contains 'r'), ← List.contains_append,
        List.singleton_append]

/-- A letter that takes a value, with the rest of its word. -/
theorem optionLoop_value (hc : c ∈ valueLetters) :
    mutUiOptionLoop word true (c :: arg) u =
      .done true (u.given [.value c hc arg] u.info.argv) := by
  have hcases := hc
  simp only [valueLetters, List.mem_cons, List.not_mem_nil, or_false] at hcases
  rcases hcases with rfl | rfl | rfl | rfl <;> rfl

/-- The log after a fatal message. -/
def Log.refuse (l : Log) (msg : Message) : Log := { l with fatalError := true }.say msg

/-- The word is refused with a message. -/
def Refuses (msg : Message) (x : UiM Bool) (u : Ui) : Prop :=
  wp x (fun ok u' => ok = false ∧ u'.log = u.log.refuse msg) (fun _ => False) u

/-- Two programs that run alike refuse alike, if they start with one log. -/
theorem Refuses.of_eq {x y : UiM Bool} {v : Ui} (h : Refuses msg y v) (hrun : x u = y v)
    (hlog : v.log = u.log) : Refuses msg x u := by
  unfold Refuses wp at h ⊢
  rw [hrun, ← hlog]
  exact h

theorem wp_liftLogUi {α : Type} {Q : α → Ui → Prop} {E : Halt → Prop} (x : LogM α) :
    wp (liftM x : UiM α) Q E u ↔ wp x (fun a l => Q a { u with log := l }) E u.log :=
  wp_focus ..

theorem ne_of_notFlag (hflag : c ∉ flagLetters) : c ≠ 'r' ∧ mutUiFlag c = none := by
  refine ⟨?_, ?_⟩
  · rintro rfl
    exact hflag (by decide)
  · unfold mutUiFlag
    split
    all_goals first | rfl | exact absurd (by decide) hflag

theorem notValue (hvalue : c ∉ valueLetters) : mutUiValue c = none := by
  unfold mutUiValue
  split
  all_goals first | rfl | exact absurd (by decide) hvalue

theorem notFlag_of_value (hc : c ∈ valueLetters) :
    c ∉ flagLetters ∧ (mutUiValue c).isSome = true := by
  simp only [valueLetters, List.mem_cons, List.not_mem_nil, or_false] at hc
  rcases hc with rfl | rfl | rfl | rfl
  all_goals decide

/-- A letter that takes a value after another letter. -/
theorem optionLoop_place (hc : c ∈ valueLetters) (hidle : u.log.Idle) :
    Refuses ⟨.fatal 0, "args.opt", [.string (String.singleton c), .string word]⟩
      (mutUiOptionLoop word false (c :: arg)) u := by
  obtain ⟨hflag, hvalue⟩ := notFlag_of_value hc
  obtain ⟨hr, hnone⟩ := ne_of_notFlag hflag
  obtain ⟨set, hset⟩ := Option.isSome_iff_exists.1 hvalue
  unfold Refuses mutUiOptionLoop
  rw [if_neg hr, hnone, hset]
  simp only [Bool.false_eq_true, if_false, wp_bind, wp_liftLogUi, wp_mutLogFatal hidle,
    mutLogString, wp_mutLogArg, wp_mutLogEnd]
  exact ⟨rfl, rfl⟩

/-- A letter that is not known. -/
theorem optionLoop_letter (hflag : c ∉ flagLetters) (hvalue : c ∉ valueLetters)
    (hidle : u.log.Idle) (first : Bool) :
    Refuses ⟨.fatal 0, "args.unknown", [.string word]⟩
      (mutUiOptionLoop word first (c :: arg)) u := by
  obtain ⟨hr, hnone⟩ := ne_of_notFlag hflag
  unfold Refuses mutUiOptionLoop
  rw [if_neg hr, hnone, notValue hvalue]
  simp only [wp_bind, wp_liftLogUi, wp_mutLogFatal hidle, mutLogString, wp_mutLogArg,
    wp_mutLogEnd]
  exact ⟨rfl, rfl⟩

/-! ## All the words -/

theorem processArgs_option (o : Opt) :
    mutUiProcessArgs (o.word :: argv) u = mutUiProcessArgs argv (u.given [o] u.info.argv) := by
  have hlist : o.word.toList = '-' :: o.letters := String.toList_ofList
  have hloop : mutUiOptionLoop o.word true o.letters u = .done true (u.given [o] u.info.argv) := by
    cases o with
    | flags letters known =>
        have hrun : mutUiOptionLoop (Opt.flags letters known).word true (letters ++ []) u = _ :=
          optionLoop_flags known true
        rw [List.append_nil] at hrun
        exact hrun
    | value letter known text => exact optionLoop_value known
  rw [mutUiProcessArgs, hlist, if_neg (by simp)]
  exact (bind_done hloop).trans rfl

/-- Options that come first. -/
theorem processArgs_options (opts : List Opt) :
    mutUiProcessArgs (opts.map Opt.word ++ argv) u =
      mutUiProcessArgs argv (u.given opts u.info.argv) := by
  induction opts generalizing u with
  | nil => rfl
  | cons o opts ih =>
      rw [List.map_cons, List.cons_append, processArgs_option, ih, given_cons o opts _ u.info.argv]
      rfl

/-- A command line of the grammar is taken as it is meant. -/
theorem options_run (opts : List Opt) {program : String} (rest : List String)
    (hprogram : ¬ isOption program) :
    mutUiProcessArgs (opts.map Opt.word ++ program :: rest) u =
      .done true (u.given opts (program :: rest)) := by
  have hhead : program.toList.head? ≠ some '-' := hprogram
  rw [processArgs_options, mutUiProcessArgs, if_pos hhead]
  rfl

/-- A word after the options that is refused. -/
theorem processArgs_refused {word : String} {cs : List Char} {rest : List String}
    (hword : word = String.ofList ('-' :: cs))
    (h : Refuses msg (mutUiOptionLoop word true cs) (u.given opts u.info.argv)) :
    Refuses msg (mutUiProcessArgs (opts.map Opt.word ++ word :: rest)) u := by
  have hlist : word.toList = '-' :: cs := by rw [hword, String.toList_ofList]
  apply Refuses.of_eq (v := u.given opts u.info.argv) _ (processArgs_options opts) rfl
  unfold Refuses
  rw [mutUiProcessArgs, hlist, if_neg (by simp)]
  refine wp_seq h (fun _ he => he) ?_
  rintro ok u' ⟨rfl, hlog⟩
  exact ⟨rfl, hlog⟩

/-- What is not of the grammar is refused. -/
theorem refused_run (hidle : u.log.Idle) (h : Misspelt argv msg) :
    Refuses msg (mutUiProcessArgs argv) u := by
  cases h with
  | program opts =>
      rw [← List.append_nil (opts.map Opt.word)]
      apply Refuses.of_eq (v := u.given opts u.info.argv) _ (processArgs_options opts) rfl
      unfold Refuses
      simp only [mutUiProcessArgs, mutUiUsage, wp_bind, wp_liftLogUi, mutLogString]
      refine (wp_mutLogFatal hidle _ _).2 ?_
      rw [wp_mutLogArg, wp_mutLogEnd]
      exact ⟨rfl, rfl⟩
  | place opts fs hfs hflags c hc arg rest =>
      apply processArgs_refused rfl
      have hempty : (true && fs.isEmpty) = false := by simpa using hfs
      refine Refuses.of_eq ?_ (optionLoop_flags hflags true) rfl
      rw [hempty]
      exact optionLoop_place (u := (u.given opts u.info.argv).given [.flags fs hflags] _) hc hidle
  | letter opts fs hflags c hflag hvalue arg rest =>
      apply processArgs_refused rfl
      refine Refuses.of_eq ?_ (optionLoop_flags hflags true) rfl
      exact optionLoop_letter (u := (u.given opts u.info.argv).given [.flags fs hflags] _) hflag
        hvalue hidle _

/-! ## Every command line -/

theorem Misspelt.cons (o : Opt) (h : Misspelt argv msg) : Misspelt (o.word :: argv) msg := by
  cases h with
  | program opts => exact .program (o :: opts)
  | place opts fs hfs hflags c hc arg rest => exact .place (o :: opts) fs hfs hflags c hc arg rest
  | letter opts fs hflags c hflag hvalue arg rest =>
      exact .letter (o :: opts) fs hflags c hflag hvalue arg rest

/-- A word with a dash is an option, or is refused wherever it stands. -/
theorem word_total (cs : List Char) (rest : List String) :
    (∃ o : Opt, o.letters = cs) ∨ ∃ msg, Misspelt (String.ofList ('-' :: cs) :: rest) msg := by
  have hsplit : cs.takeWhile (· ∈ flagLetters) ++ cs.dropWhile (· ∈ flagLetters) = cs :=
    List.takeWhile_append_dropWhile
  have hflags : ∀ c ∈ cs.takeWhile (· ∈ flagLetters), c ∈ flagLetters := fun c hc =>
    of_decide_eq_true (List.all_eq_true.1 List.all_takeWhile c hc)
  cases hdrop : cs.dropWhile (· ∈ flagLetters) with
  | nil =>
      rw [hdrop, List.append_nil] at hsplit
      exact .inl ⟨.flags _ hflags, hsplit⟩
  | cons c arg =>
      have hflag : c ∉ flagLetters := by
        have hhead := List.head?_dropWhile_not (· ∈ flagLetters) cs
        rw [hdrop] at hhead
        simpa using hhead
      rw [hdrop] at hsplit
      by_cases hvalue : c ∈ valueLetters
      · by_cases hfs : cs.takeWhile (· ∈ flagLetters) = []
        · left
          rw [hfs] at hsplit
          exact ⟨.value c hvalue arg, hsplit⟩
        · right
          rw [← hsplit]
          exact ⟨_, .place [] _ hfs hflags c hvalue arg rest⟩
      · right
        rw [← hsplit]
        exact ⟨_, .letter [] _ hflags c hflag hvalue arg rest⟩

/-- A command line is of the grammar, or it is refused. -/
theorem grammar_total (argv : List String) :
    (∃ (opts : List Opt) (program : String) (rest : List String),
        argv = opts.map Opt.word ++ program :: rest ∧ ¬ isOption program) ∨
      ∃ msg, Misspelt argv msg := by
  induction argv with
  | nil => exact .inr ⟨_, .program []⟩
  | cons word argv ih =>
      by_cases hword : isOption word
      · obtain ⟨cs, hcs⟩ := List.head?_eq_some_iff.1 hword
        have hof : word = String.ofList ('-' :: cs) := by rw [← hcs, String.ofList_toList]
        rcases word_total cs argv with ⟨o, ho⟩ | hmisspelt
        · have hcons : word = o.word := by rw [hof, Opt.word, ho]
          rcases ih with ⟨opts, program, rest, hargv, hprogram⟩ | ⟨msg, hmsg⟩
          · refine .inl ⟨o :: opts, program, rest, ?_, hprogram⟩
            rw [hcons, hargv]
            rfl
          · rw [hcons]
            exact .inr ⟨msg, hmsg.cons o⟩
        · rw [hof]
          exact .inr hmisspelt
      · exact .inl ⟨[], word, argv, rfl, hword⟩

/-- Only a command line of the grammar is taken. -/
theorem grammar_of_run (hidle : u.log.Idle) (hrun : mutUiProcessArgs argv u = .done true u') :
    ∃ opts program rest, argv = opts.map Opt.word ++ program :: rest ∧ ¬ isOption program ∧
      u' = u.given opts (program :: rest) := by
  rcases grammar_total argv with ⟨opts, program, rest, hargv, hprogram⟩ | ⟨msg, hmisspelt⟩
  · refine ⟨opts, program, rest, hargv, hprogram, ?_⟩
    rw [hargv, options_run opts rest hprogram] at hrun
    cases hrun
    rfl
  · have hfalse := wp_done (refused_run hidle hmisspelt) hrun
    exact absurd hfalse.1 (by simp)

/-- The command lines that the program takes are those of the grammar, and it takes them as
they are meant; it refuses those with something wrong in them, with the message that names
it; and every command line is of the grammar or has something wrong in it. -/
theorem options_exact (argv : List String) (hidle : u.log.Idle) :
    (∀ u', mutUiProcessArgs argv u = .done true u' ↔
      ∃ opts program rest, argv = opts.map Opt.word ++ program :: rest ∧ ¬ isOption program ∧
        u' = u.given opts (program :: rest)) ∧
      (∀ msg, Misspelt argv msg ↔
        ∃ u', mutUiProcessArgs argv u = .done false u' ∧ u'.log = u.log.refuse msg) ∧
      ((∃ (opts : List Opt) (program : String) (rest : List String),
          argv = opts.map Opt.word ++ program :: rest ∧ ¬ isOption program) ∨
        ∃ msg, Misspelt argv msg) ∧
      ∀ e, mutUiProcessArgs argv u ≠ .halt e := by
  have hrefused : ∀ msg, Misspelt argv msg →
      ∃ u', mutUiProcessArgs argv u = .done false u' ∧ u'.log = u.log.refuse msg := by
    intro msg h
    obtain ⟨ok, u', hrun, rfl, hlog⟩ := wp_returns (refused_run hidle h) fun _ he => he
    exact ⟨u', hrun, hlog⟩
  refine ⟨fun u' => ⟨grammar_of_run hidle, ?_⟩, fun msg => ⟨hrefused msg, ?_⟩,
    grammar_total argv, fun e he => ?_⟩
  · rintro ⟨opts, program, rest, rfl, hprogram, rfl⟩
    exact options_run opts rest hprogram
  · rintro ⟨u', hrun, hlog⟩
    rcases grammar_total argv with ⟨opts, program, rest, hargv, hprogram⟩ | ⟨msg', hmisspelt⟩
    · rw [hargv, options_run opts rest hprogram] at hrun
      cases hrun
    · obtain ⟨u₁, hrun₁, hlog₁⟩ := hrefused msg' hmisspelt
      rw [hrun] at hrun₁
      cases hrun₁
      have hmessages := congrArg Log.messages (hlog₁.symm.trans hlog)
      obtain rfl : msg' = msg := (List.cons.inj hmessages).1
      exact hmisspelt
  · rcases grammar_total argv with ⟨opts, program, rest, hargv, hprogram⟩ | ⟨msg', hmisspelt⟩
    · rw [hargv, options_run opts rest hprogram] at he
      cases he
    · obtain ⟨u₁, hrun₁, -⟩ := hrefused msg' hmisspelt
      rw [he] at hrun₁
      cases hrun₁

/-- Two flags and the name of the log file. -/
def smallOptions : List Opt :=
  [.flags ['b', 'f'] (by simp [flagLetters]), .value 'o' (by decide) "file".toList]

/-- The words `-bf -ofile a.out -b`, of which the last is the program's own. -/
theorem options_exact_own :
    ∃ u', mutUiProcessArgs ["-bf", "-ofile", "a.out", "-b"] ⟨mutLogOpen, .start, false⟩ =
        .done true u' ∧
      u'.info.argv = ["a.out", "-b"] := by
  let u : Ui := ⟨mutLogOpen, .start, false⟩
  have hword : ¬ isOption "a.out" := by
    unfold isOption
    decide +kernel
  have hargv : ["-bf", "-ofile", "a.out", "-b"] =
      smallOptions.map Opt.word ++ "a.out" :: ["-b"] := by
    decide +kernel
  have hidle : u.log.Idle := Log.idle_mutLogOpen
  have htaken := (options_exact ["-bf", "-ofile", "a.out", "-b"] hidle).1
    (u.given smallOptions ["a.out", "-b"])
  exact ⟨_, htaken.2 ⟨smallOptions, "a.out", ["-b"], hargv, hword, rfl⟩, rfl⟩

/-! ## Writing a command line -/

/-- Whether a flag is set. -/
def Ui.asked (u : Ui) (c : Char) : Bool :=
  if c = 'r' then u.memReport
  else if c = 'f' then u.info.flags.free
  else if c = 't' then u.info.flags.trace
  else if c = 'b' then u.info.flags.backtrace
  else if c = 'c' then u.info.flags.check
  else if c = 's' then u.info.flags.stats
  else if c = 'u' then u.info.flags.usage
  else u.info.flags.zero

/-- A value, if there is one. -/
def Opt.ofValue (c : Char) (h : c ∈ valueLetters) (v : Option String) : List Opt :=
  v.toList.map fun v => .value c h v.toList

/-- The options that ask for all this. -/
def Ui.written (u : Ui) : List Opt :=
  .flags (flagLetters.filter u.asked) (fun _ hd => List.mem_of_mem_filter hd) ::
    (Opt.ofValue 'o' (by decide) u.info.logFileName ++
      (Opt.ofValue 'n' (by decide) u.info.mutName ++
        (Opt.ofValue 'x' (by decide) (some u.info.undesirableSuffix) ++
          Opt.ofValue 'U' (by decide) u.info.usageFunction)))

theorem lastValue_append (c : Char) (opts opts' : List Opt) :
    lastValue c (opts ++ opts') = (lastValue c opts').or (lastValue c opts) := by
  unfold lastValue
  rw [List.filterMap_append, List.getLast?_append]

theorem lastValue_ofValue (c d : Char) (h : d ∈ valueLetters) (v : Option String) :
    lastValue c (Opt.ofValue d h v) = if d = c then v else none := by
  unfold lastValue Opt.ofValue
  cases v with
  | none => simp
  | some v =>
      by_cases hd : d = c
      · simp [Opt.valueOf, hd]
      · simp [Opt.valueOf, hd]

theorem flagsOf_ofValue (c : Char) (h : c ∈ valueLetters) (v : Option String) :
    (Opt.ofValue c h v).flatMap Opt.flagsOf = [] := by
  cases v <;> rfl

/-- Whatever can be asked for can be written: the tracker is given it back. -/
theorem options_round_trip (u : Ui) {program : String} {rest : List String}
    (hargv : u.info.argv = program :: rest) (hprogram : ¬ isOption program) :
    mutUiProcessArgs (u.written.map Opt.word ++ u.info.argv) ⟨u.log, .start, false⟩ =
      .done true u := by
  have hflags : u.written.flatMap Opt.flagsOf = flagLetters.filter u.asked := by
    simp only [Ui.written, List.flatMap_cons, List.flatMap_append, flagsOf_ofValue, List.append_nil]
    rfl
  have hasked : ∀ c ∈ flagLetters, (flagLetters.filter u.asked).contains c = u.asked c := by
    intro c hc
    rw [Bool.eq_iff_iff, List.contains_iff_mem, List.mem_filter]
    exact and_iff_right hc
  have hvalue : ∀ c, lastValue c u.written =
      (((if 'U' = c then u.info.usageFunction else none).or
        (if 'x' = c then some u.info.undesirableSuffix else none)).or
          (if 'n' = c then u.info.mutName else none)).or
            (if 'o' = c then u.info.logFileName else none) := by
    intro c
    rw [Ui.written, lastValue_cons]
    simp only [lastValue_append, lastValue_ofValue, Opt.valueOf, Option.or_none]
  have hcontrol : ArgInfo.start.flags.given (flagLetters.filter u.asked) = u.info.flags := by
    rw [Control.given, hasked 't' (by decide), hasked 'b' (by decide), hasked 'f' (by decide),
      hasked 's' (by decide), hasked 'z' (by decide), hasked 'u' (by decide),
      hasked 'c' (by decide)]
    simp only [ArgInfo.start, Bool.or_false]
    rfl
  have hinfo : ArgInfo.start.given u.written (program :: rest) = u.info := by
    rw [ArgInfo.given, hflags, hcontrol, hvalue, hvalue, hvalue, hvalue, ← hargv]
    simp [ArgInfo.start]
  have hreport : (flagLetters.filter u.asked).contains 'r' = u.memReport :=
    hasked 'r' List.mem_cons_self
  rw [hargv, options_run u.written rest hprogram, Ui.given, hinfo, hflags, hreport, Bool.or_false]

/-- A name for the messages, a report of the memory, and a program. -/
theorem options_round_trip_name :
    mutUiProcessArgs
        ((Ui.written ⟨mutLogOpen, { ArgInfo.start with argv := ["a.out"], mutName := some "m" },
          true⟩).map Opt.word ++ ["a.out"]) ⟨mutLogOpen, .start, false⟩ =
      .done true ⟨mutLogOpen, { ArgInfo.start with argv := ["a.out"], mutName := some "m" },
        true⟩ := by
  apply options_round_trip
    ⟨mutLogOpen, { ArgInfo.start with argv := ["a.out"], mutName := some "m" }, true⟩ rfl
  unfold isOption
  decide +kernel

end MutTracker.Source
