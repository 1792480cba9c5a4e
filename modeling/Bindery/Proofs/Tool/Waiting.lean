import Bindery.Host

/-!
# `Proofs.Tool.Waiting` — how a wait ends

A program that is waited for may end, its cancellation may be asked for, and its time may be up, in any order and
several of them between one look and the next. The wait ends at the first look that sees any of the three, and
that look alone tells how: an end that is seen comes before everything else, and a cancellation comes before the
time.

The program does not outlive the wait. As far as its caller can know it is running until a look sees that it has
ended, and such a look takes notice of the end; otherwise it has to be killed first, and its end taken notice of
after that (`Standing`).

**Contents.**
* `Limits.Cancels`, `Limits.Expires`, `Limits.Decides` — what a look may see;
* `Ends` — what a wait comes to that ends at a look, and what is done to the program;
* `verdict?_eq_none_iff`, `ends_of_verdict?` — one look;
* `watchFrom?_eq_none_iff`, `exists_first`, `watchFrom?_append`, `watch?_ends` — a sequence of looks;
* `Standing`, `Event`, `gone_of_ends` — what becomes of the program;
* `decides_of_open`, `ends_of_open` — waits that nothing bounds;
* `Host.Leaves` and `Host.run_outcome` — programs of the host;
* `first_look_decides` — **a wait ends at the first look that decides, as that look says, and leaves nothing of
  the program behind**.
-/

namespace Bindery.Tool

variable {limits : Limits} {perSecond : Nat} {call : Call} {look : Look} {timeline : List Look}

/-! ## One look -/

/-- The look sees that cancellation is asked for, and it may be. -/
def Limits.Cancels (limits : Limits) (look : Look) : Prop :=
  limits.cancellable = true ∧ look.cancelled = true

/-- The look sees that the time is up. -/
def Limits.Expires (limits : Limits) (look : Look) : Prop :=
  ∃ limit, limits.timeout = some limit ∧ limit ≤ look.elapsed

/-- The look sees a reason not to wait any longer. -/
def Limits.Decides (limits : Limits) (look : Look) : Prop :=
  look.exit ≠ none ∨ limits.Cancels look ∨ limits.Expires look

/-- What a call comes to if the wait ends at a look, and what is done to the program before it does. -/
inductive Ends (limits : Limits) (perSecond : Nat) (call : Call) (look : Look) :
    Except Fault Exit → List Deed → Prop where
  | exited {exit : Exit} (seen : look.exit = some exit) : Ends limits perSecond call look (.ok exit) []
  | cancelled (running : look.exit = none) (asked : limits.Cancels look) :
    Ends limits perSecond call look (.error (.cancelled call.tool call.program)) [.kill, .reap]
  | timedOut {limit : Nat} (running : look.exit = none) (unasked : ¬limits.Cancels look)
    (given : limits.timeout = some limit) (late : limit ≤ look.elapsed) :
    Ends limits perSecond call look (.error (.timedOut call.tool call.program (limit / perSecond)))
      [.kill, .reap]

theorem verdict?_eq_none_iff : limits.verdict? look = none ↔ ¬limits.Decides look := by
  unfold Limits.verdict? Limits.Decides Limits.Cancels Limits.Expires
  rw [← Bool.and_eq_true_iff]
  cases look.exit with
  | some exit => simp
  | none =>
    cases limits.cancellable && look.cancelled with
    | true => simp
    | false => cases limits.timeout <;> simp

/-- What a look decides is what the wait comes to. -/
theorem ends_of_verdict? {verdict : Verdict} (h : limits.verdict? look = some verdict) :
    Ends limits perSecond call look (verdict.outcome perSecond call) verdict.deeds := by
  unfold Limits.verdict? at h
  split at h
  · next exit hexit =>
    cases h
    exact .exited hexit
  · next hexit =>
    split at h
    · next hasked =>
      cases h
      exact .cancelled hexit (Bool.and_eq_true_iff.mp hasked)
    · next hunasked =>
      split at h
      · next limit hlimit =>
        split at h
        · next hlate =>
          cases h
          exact .timedOut hexit (fun hasked => hunasked (Bool.and_eq_true_iff.mpr hasked)) hlimit hlate
        · cases h
      · cases h

/-! ## A sequence of looks -/

/-- A wait goes on as long as no look decides. -/
theorem watchFrom?_eq_none_iff (looks : Nat) :
    limits.watchFrom? looks timeline = none ↔ ∀ look ∈ timeline, ¬limits.Decides look := by
  induction timeline generalizing looks with
  | nil => simp [Limits.watchFrom?]
  | cons look later ih =>
    rw [List.forall_mem_cons, ← verdict?_eq_none_iff, ← ih (looks + 1), Limits.watchFrom?]
    cases limits.verdict? look with
    | none => simp
    | some verdict => simp

/-- If any look decides, one of them is the first. -/
theorem exists_first (h : ∃ look ∈ timeline, limits.Decides look) :
    ∃ front look rest, timeline = front ++ look :: rest ∧ (∀ earlier ∈ front, ¬limits.Decides earlier)
      ∧ limits.Decides look := by
  induction timeline with
  | nil => simp at h
  | cons look later ih =>
    by_cases hlook : limits.Decides look
    · exact ⟨[], look, later, rfl, by simp, hlook⟩
    · obtain ⟨other, hmem, hother⟩ := h
      have hlater : other ∈ later := by
        rcases List.mem_cons.mp hmem with rfl | hmem
        · exact absurd hother hlook
        · exact hmem
      obtain ⟨front, first, rest, rfl, hfront, hfirst⟩ := ih ⟨other, hlater, hother⟩
      exact ⟨look :: front, first, rest, rfl, List.forall_mem_cons.mpr ⟨hlook, hfront⟩, hfirst⟩

/-- The first look that decides ends the wait. -/
theorem watchFrom?_append {front rest : List Look} {verdict : Verdict}
    (hfront : ∀ earlier ∈ front, ¬limits.Decides earlier) (hlook : limits.verdict? look = some verdict)
    (looks : Nat) :
    limits.watchFrom? looks (front ++ look :: rest) = some ⟨looks + front.length, verdict, verdict.deeds⟩ := by
  induction front generalizing looks with
  | nil =>
    rw [List.nil_append, Limits.watchFrom?, hlook]
    rfl
  | cons earlier front ih =>
    obtain ⟨hearlier, hfront⟩ := List.forall_mem_cons.mp hfront
    rw [List.cons_append, Limits.watchFrom?, verdict?_eq_none_iff.mpr hearlier]
    dsimp only
    rw [ih hfront, List.length_cons]
    congr 2
    omega

/-- **A wait ends at the first look that decides**, and what it comes to is told by that look. -/
theorem watch?_ends (perSecond : Nat) (call : Call) (h : ∃ look ∈ timeline, limits.Decides look) :
    ∃ front look rest watched, timeline = front ++ look :: rest
      ∧ (∀ earlier ∈ front, ¬limits.Decides earlier) ∧ limits.Decides look
      ∧ limits.watch? timeline = some watched ∧ watched.looks = front.length
      ∧ Ends limits perSecond call look (watched.verdict.outcome perSecond call) watched.deeds := by
  obtain ⟨front, look, rest, rfl, hfront, hlook⟩ := exists_first h
  cases hverdict : limits.verdict? look with
  | none => exact absurd hlook (verdict?_eq_none_iff.mp hverdict)
  | some verdict =>
    exact ⟨front, look, rest, _, rfl, hfront, hlook, watchFrom?_append hfront hverdict 0, Nat.zero_add _,
      ends_of_verdict? hverdict⟩

/-! ## The program -/

/-- How a program stands, as far as its caller can know. -/
inductive Standing where
  | running
  | killed
  /-- its end has been taken notice of -/
  | gone
deriving DecidableEq, Repr

/-- What happens in a wait. -/
inductive Event where
  | look (seen : Look)
  | deed (done : Deed)
deriving DecidableEq, Repr

/-- How the program stands after an event; nothing if the event cannot take place. A program that is gone can
neither be looked at nor be killed, and only after it was killed is its end awaited. -/
def Standing.after? : Standing → Event → Option Standing
  | running, .look seen => some (if seen.exit = none then running else gone)
  | running, .deed .kill => some killed
  | killed, .deed .reap => some gone
  | _, _ => none

theorem running_of_looks {front : List Look} (h : ∀ earlier ∈ front, ¬limits.Decides earlier) :
    (front.map Event.look).foldlM Standing.after? .running = some .running := by
  induction front with
  | nil => rfl
  | cons earlier front ih =>
    obtain ⟨hearlier, hfront⟩ := List.forall_mem_cons.mp h
    have hrunning : earlier.exit = none := Decidable.not_not.mp fun hexit => hearlier (.inl hexit)
    rw [List.map_cons, List.foldlM_cons, Standing.after?, if_pos hrunning]
    exact ih hfront

/-- **Nothing of the program is left after the wait.** -/
theorem gone_of_ends {front : List Look} (h : ∀ earlier ∈ front, ¬limits.Decides earlier)
    {result : Except Fault Exit} {deeds : List Deed} (hends : Ends limits perSecond call look result deeds) :
    ((front ++ [look]).map Event.look ++ deeds.map Event.deed).foldlM Standing.after? .running = some .gone := by
  rw [List.map_append, List.append_assoc, List.foldlM_append, running_of_looks h]
  -- the look that decides takes notice of the end, or the program is still running there
  cases hends with
  | exited seen => simp [Standing.after?, seen]
  | cancelled running => simp [Standing.after?, running]
  | timedOut running => simp [Standing.after?, running]

/-! ## Without limits -/

/-- Where nothing bounds the time, only the end of the program decides. -/
theorem decides_of_open (h : limits.isOpen = true) : limits.Decides look ↔ look.exit ≠ none := by
  obtain ⟨htimeout, hcancellable⟩ := Bool.and_eq_true_iff.mp h
  constructor
  · rintro (hexit | ⟨hasked, -⟩ | ⟨limit, hlimit, -⟩)
    · exact hexit
    · rw [hasked] at hcancellable
      cases hcancellable
    · rw [hlimit] at htimeout
      cases htimeout
  · exact .inl

/-- The call then comes to the end of the program. -/
theorem ends_of_open (h : limits.isOpen = true) {result : Except Fault Exit} {deeds : List Deed}
    (hends : Ends limits perSecond call look result deeds) :
    ∃ exit, look.exit = some exit ∧ result = .ok exit ∧ deeds = [] := by
  cases hends with
  | exited seen => exact ⟨_, seen, rfl, rfl⟩
  | cancelled running asked => exact absurd running ((decides_of_open h).mp (.inr (.inl asked)))
  | timedOut running _ given late =>
    exact absurd running ((decides_of_open h).mp (.inr (.inr ⟨_, given, late⟩)))

end Bindery.Tool

namespace Bindery.Host

open Tool (Limits Call)

variable {life : Life} {cancelled : Bool} {limits : Limits} {call : Call} {files : Files}

/-! ## Programs of the host -/

/-- A look sees no other end than that of the program. -/
theorem exit_of_mem_looks {look : Tool.Look} {exit : Exit} (h : look ∈ life.looks cancelled)
    (hexit : look.exit = some exit) : exit = life.exit := by
  obtain ⟨n, -, rfl⟩ := List.mem_map.mp h
  dsimp only at hexit
  split at hexit
  · cases hexit
    rfl
  · cases hexit

/-- The last look sees the end of the program. -/
theorem exists_look (life : Life) (cancelled : Bool) :
    ∃ look ∈ life.looks cancelled, look.exit = some life.exit := by
  refine ⟨_, List.mem_map.mpr ⟨life.machine.clock / interval + 1, ?_, rfl⟩, ?_⟩
  · exact List.mem_range.mpr (Nat.lt_succ_self _)
  · have hclock : life.machine.clock ≤ (life.machine.clock / interval + 1) * interval := by
      unfold interval
      omega
    exact if_pos hclock

/-- What the program has done is there after the wait, up to its end or up to the look at which it was killed. -/
structure Leaves (call : Call) (files : Files) (life : Life) (watched : Tool.Watched) (left : Files) : Prop where
  whole : watched.deeds = [] → left = life.machine.files
  cut : ∀ short, watched.deeds = [.kill, .reap] →
    live call files (some (watched.looks * interval)) = .ok short → left = short.machine.files

theorem leaves_leftBy (call : Call) (files : Files) (life : Life) (watched : Tool.Watched) :
    Leaves call files life watched (leftBy call files life watched) where
  whole := by
    intro hdeeds
    unfold leftBy
    rw [hdeeds]
    exact if_neg List.not_mem_nil
  cut := by
    intro short hdeeds hshort
    unfold leftBy
    rw [hdeeds, if_pos List.mem_cons_self, hshort]

/-- **On the host every wait ends**, and the call comes to what the wait comes to. -/
theorem run_outcome (h : live call files none = .ok life) (limits : Limits) (cancelled : Bool) :
    ∃ watched, limits.watch? (life.looks cancelled) = some watched
      ∧ (run limits cancelled call files).1 = watched.verdict.outcome perSecond call
      ∧ Leaves call files life watched (run limits cancelled call files).2
      ∧ (limits.isOpen = true → (run limits cancelled call files).1 = .ok life.exit) := by
  obtain ⟨last, hlast, hexit⟩ := exists_look life cancelled
  have hdecides : limits.Decides last := .inl (by rw [hexit]; exact Option.some_ne_none _)
  obtain ⟨front, look, rest, watched, hlooks, -, -, hwatched, -, hends⟩ :=
    Tool.watch?_ends perSecond call ⟨last, hlast, hdecides⟩
  have hopen : limits.isOpen = true → run limits cancelled call files = (.ok life.exit, life.machine.files) := by
    intro hopen
    unfold run
    rw [h]
    dsimp only
    rw [if_pos hopen]
  refine ⟨watched, hwatched, ?_⟩
  -- without limits nobody looks, but the looks would find the same end
  by_cases hlimits : limits.isOpen = true
  · obtain ⟨exit, hseen, hresult, hdeeds⟩ := Tool.ends_of_open hlimits hends
    have hmem : look ∈ life.looks cancelled := by
      rw [hlooks]
      simp
    rw [hopen hlimits, hresult, exit_of_mem_looks hmem hseen]
    refine ⟨rfl, ⟨fun _ => rfl, fun short hkilled => ?_⟩, fun _ => rfl⟩
    rw [hdeeds] at hkilled
    cases hkilled
  · have hrun : run limits cancelled call files =
        (watched.verdict.outcome perSecond call, leftBy call files life watched) := by
      unfold run
      rw [h]
      dsimp only
      rw [if_neg hlimits, hwatched]
    rw [hrun]
    exact ⟨rfl, leaves_leftBy call files life watched, fun hcontra => absurd hcontra hlimits⟩

end Bindery.Host

namespace Bindery.Tool

/-- **A wait ends at the first look that decides**, as that look says, and leaves nothing of the program behind.
As long as no look decides, the wait goes on. Where nothing bounds the time, only the end of the program decides,
and so a program of the host always comes to its end; there every wait ends, the call comes to what the wait comes
to, and what is left is what the program had done by its end or until it was killed. -/
theorem first_look_decides (limits : Limits) (timeline : List Look) (perSecond : Nat) (call : Call) :
    (limits.watch? timeline = none ↔ ∀ look ∈ timeline, ¬limits.Decides look)
    ∧ ((∃ look ∈ timeline, limits.Decides look) →
      ∃ front look rest watched, timeline = front ++ look :: rest
        ∧ (∀ earlier ∈ front, ¬limits.Decides earlier) ∧ limits.Decides look
        ∧ limits.watch? timeline = some watched ∧ watched.looks = front.length
        ∧ Ends limits perSecond call look (watched.verdict.outcome perSecond call) watched.deeds
        ∧ ((front ++ [look]).map Event.look ++ watched.deeds.map Event.deed).foldlM Standing.after? .running
          = some .gone)
    ∧ (limits.isOpen = true → ∀ look result deeds, Ends limits perSecond call look result deeds →
      ∃ exit, look.exit = some exit ∧ result = .ok exit ∧ deeds = [])
    ∧ ∀ cancelled files life, Host.live call files none = .ok life →
      ∃ watched, limits.watch? (life.looks cancelled) = some watched
        ∧ (Host.run limits cancelled call files).1 = watched.verdict.outcome Host.perSecond call
        ∧ Host.Leaves call files life watched (Host.run limits cancelled call files).2
        ∧ (limits.isOpen = true → (Host.run limits cancelled call files).1 = .ok life.exit) := by
  refine ⟨watchFrom?_eq_none_iff 0, ?_, fun hopen look result deeds => ends_of_open hopen,
    fun cancelled files life h => Host.run_outcome h limits cancelled⟩
  intro h
  obtain ⟨front, look, rest, watched, htimeline, hfront, hlook, hwatched, hlooks, hends⟩ :=
    watch?_ends perSecond call h
  exact ⟨front, look, rest, watched, htimeline, hfront, hlook, hwatched, hlooks, hends,
    gone_of_ends hfront hends⟩

/-- A program that takes a second. -/
def nap : Call :=
  ⟨"nap", ⟨"sleep"⟩, ["1"], ⟨"."⟩⟩

/-- Where it runs. -/
def bareDesk : Files :=
  { home := ["desk"], entries := [] }

/-- Two reasons in one look, and the end of the program in the next. -/
def race : List Look :=
  [⟨none, false, 0⟩, ⟨none, true, 120⟩, ⟨some (.code 0), true, 170⟩]

/-- The cancellation wins, and without limits the program ends by itself. -/
theorem first_look_decides_race :
    (∃ look ∈ race, Limits.Decides ⟨some 100, true⟩ look)
    ∧ (∃ watched, Limits.watch? ⟨some 100, true⟩ race = some watched ∧ watched.looks = 1
      ∧ watched.verdict.outcome 1000 nap = .error (.cancelled "nap" ⟨"sleep"⟩) ∧ watched.deeds = [.kill, .reap])
    ∧ ∃ life, Host.live nap bareDesk none = .ok life ∧ (Host.run {} true nap bareDesk).1 = .ok life.exit := by
  have hrace : ∃ look ∈ race, Limits.Decides ⟨some 100, true⟩ look :=
    ⟨_, .tail _ (.head _), .inr (.inl ⟨rfl, rfl⟩)⟩
  obtain ⟨-, hends, -, -⟩ := first_look_decides ⟨some 100, true⟩ race 1000 nap
  obtain ⟨-, -, -, hhost⟩ := first_look_decides {} [] 1000 nap
  refine ⟨hrace, ?_, ?_⟩
  · obtain ⟨front, look, rest, watched, -, -, -, hwatched, -⟩ := hends hrace
    obtain rfl : watched = ⟨1, .cancelled, [.kill, .reap]⟩ := Option.some.inj (hwatched.symm.trans rfl)
    exact ⟨_, hwatched, rfl, rfl, rfl⟩
  · obtain ⟨life, hlife⟩ : ∃ life, Host.live nap bareDesk none = .ok life := ⟨_, rfl⟩
    obtain ⟨watched, -, -, -, hexit⟩ := hhost true bareDesk life hlife
    exact ⟨life, hlife, hexit rfl⟩

end Bindery.Tool
