/-
  JobFleet.Proofs.Fleet.FailClosed: a run never runs without its lock, and always gives it back.

  `Run.life` makes the pieces of a run one after the other, each in a world of its own.  Whatever
  happens elsewhere between two pieces, and however the store answers, is in these worlds, so what
  holds of every life holds for every store, every interference and every order of answers and
  failures.

  A life is a row of attempts that were refused, and then either its end, or the piece in which the
  store says yes.  From there on the rest has one of two shapes: the body begins, ends and the lock
  is given back, or the declaration panics and the lock is given back.

  Main results:
    * `begins_after_yes` — the body begins at most once, and only after an answer of yes.
    * `life_asks` — a run that comes to its turns is skipped, or takes its lock and gives it back.
    * `fail_closed` — all of it: the lock is given back once, last, and the result is well formed.
-/
import JobFleet.Proofs.Lock.Journal
import JobFleet.Proofs.Lock.Lease

namespace JobFleet

/-! ## Results -/

/-- A result with an error is a failure without data. -/
def RunResult.WellFormed (r : RunResult) :
    Prop := r.error.isSome → r.success = false ∧ r.data = none

/-- However a body ends, its result is well formed. -/
theorem RunResult.wellFormed_ofEnding (e : Ending) : (RunResult.ofEnding e).WellFormed := by
  cases e with
  | returned outcome => exact nofun
  | failed error => exact fun _ => ⟨rfl, rfl⟩
  | panicked payload => exact fun _ => ⟨rfl, rfl⟩

/-- The result of a run that broke outside its body is well formed. -/
theorem RunResult.wellFormed_brokenWrapper : RunResult.brokenWrapper.WellFormed :=
  fun _ => ⟨rfl, rfl⟩

/-! ## Time for attempts -/

section

variable {σ : Type} {l : Lock} {deadline : Option Nat} {w w' : World σ} {worlds : List (World σ)}
    {count last : Nat}

/-- After so many refused attempts in these worlds, from a moment on, there is no time for another
    one: the delays between the attempts reach beyond the deadline, or the clock has come so far. -/
def Lock.RunsOut (l : Lock) (deadline : Option Nat) (start : Nat) (worlds : List (World σ))
    (count : Nat) : Prop :=
  ∀ last, deadline = some last → last < start + (count + 1) * l.retryDelay ∨
    ∃ later, worlds[count]? = some later ∧ last < later.elapsed + l.retryDelay

/-- There is no time for another attempt after the first one. -/
theorem Lock.RunsOut.lt_of_zero (h : l.RunsOut deadline w.elapsed (w :: worlds) 0)
    (hlast : deadline = some last) :
    last < w.elapsed + l.retryDelay := by
  obtain hdelays | ⟨later, hlater, hclock⟩ := h last hlast
  · rwa [Nat.zero_add, Nat.one_mul] at hdelays
  · cases hlater
    exact hclock

/-- An attempt that comes at least a delay after the one before has one less to follow. -/
theorem Lock.RunsOut.tail (h : l.RunsOut deadline w.elapsed (w :: w' :: worlds) (count + 1))
    (hlater : w.elapsed + l.retryDelay ≤ w'.elapsed) :
    l.RunsOut deadline w'.elapsed (w' :: worlds) count := by
  intro last hlast
  obtain hdelays | hclock := h last hlast
  · rw [Nat.succ_mul] at hdelays
    exact .inl (by omega)
  · exact .inr hclock

/-- With a positive delay the milliseconds of the timeout are attempts enough. -/
theorem Lock.runsOut_of_delay (hdelay : 0 < l.retryDelay) (timeout : Option Nat) (now : Nat)
    (worlds : List (World σ)) :
    l.RunsOut (Lock.deadline? timeout now) now worlds (timeout.getD 0) := by
  intro last hlast
  obtain ⟨length, rfl, rfl⟩ := Lock.deadline?_eq_some hlast
  have hlong : length + 1 ≤ (length + 1) * l.retryDelay := Nat.le_mul_of_pos_right _ hdelay
  refine .inl ?_
  show now + length < now + (length + 1) * l.retryDelay
  omega

end

/-! ## Lives -/

variable {σ : Type}

/-- One piece of a run: the run before it, the world it finds, how far the run gets, and the world
    it leaves. -/
structure Piece (σ : Type) where
  run : Run
  found : World σ
  progress : Progress
  left : World σ

/-- The call with which a run asks for its lock, with its answer. -/
def Run.asking (r : Run) (answer : Except LockStoreError Bool) : StoreCall :=
  .setIfAbsent r.key r.guard.lock.holder (Lock.wholeSeconds (r.guard.ttlOf r.job)) answer

/-- The call with which a run gives its lock back, with its answer. -/
def Run.givingBack (r : Run) (answer : Except LockStoreError Bool) : StoreCall :=
  .compareAndDelete r.key r.guard.lock.holder answer

/-- The body runs. -/
def RunPhase.isExecuting : RunPhase → Bool
  | .executing _ _ => true
  | _ => false

namespace Run.Same

variable {r r' : Run}

/-- The key, the holder and the time to live that a run asks for stay the same through its life. -/
theorem asking (h : r.Same r') (answer : Except LockStoreError Bool) :
    r'.asking answer = r.asking answer := by
  unfold Run.asking
  rw [h.key, h.guard, h.job]

theorem givingBack (h : r.Same r') (answer : Except LockStoreError Bool) :
    r'.givingBack answer = r.givingBack answer := by
  unfold Run.givingBack
  rw [h.key, h.guard]

/-- Whom a skip is counted for stays the same through the life of a run. -/
theorem skips (h : r.Same r') (w : World σ) : r'.skips w = r.skips w := by
  unfold Run.skips
  rw [h.job, h.kind]

end Run.Same

namespace Piece

/-- The body begins. -/
def begins (p : Piece σ) : Bool := (p.progress.run?).any (·.phase.isExecuting)

/-- The moment at which the run wants to go on. -/
def wakes (p : Piece σ) : Nat :=
  match p.progress with
  | .waiting moment _ => moment
  | _ => 0

/-- Nothing of body and sink is touched. -/
def Untouched (p : Piece σ) : Prop := p.found.Untouched p.left

/-- Each piece comes no earlier than the one before wanted it. -/
def InTime : List (Piece σ) → Prop
  | p :: q :: rest => p.wakes ≤ q.found.elapsed ∧ InTime (q :: rest)
  | _ => True

instance decidableInTime : (pieces : List (Piece σ)) → Decidable (InTime pieces)
  | [] => isTrue trivial
  | [_] => isTrue trivial
  | p :: q :: rest =>
    have := decidableInTime (q :: rest)
    inferInstanceAs (Decidable (p.wakes ≤ q.found.elapsed ∧ InTime (q :: rest)))

variable [LockStore σ]

/-- The calls on the lock store. -/
def calls (p : Piece σ) : List StoreCall := p.run.calls p.found

/-- The store is asked and does not say yes. -/
structure Refused (r : Run) (p : Piece σ) : Prop where
  calls : ∃ answer, answer ≠ .ok true ∧ p.calls = [r.asking answer]
  untouched : p.Untouched
  waits : p.begins = false

/-- The store is asked and says yes. -/
structure Took (r : Run) (p : Piece σ) : Prop where
  calls : p.calls = [r.asking (.ok true)]
  untouched : p.Untouched
  waits : p.begins = false

/-- The lock is given back and the run ends with a result. -/
structure Released (r : Run) (result : RunResult) (p : Piece σ) : Prop where
  calls : ∃ answer, p.calls = [r.givingBack answer]
  untouched : p.Untouched
  ends : p.progress = .ended (.completed result)

variable {r r' : Run} {p : Piece σ}

/-- An attempt is refused to a run at any stage of its life alike. -/
theorem Refused.of_same (h : r.Same r') (hp : p.Refused r') : p.Refused r := by
  obtain ⟨answer, hno, hcalls⟩ := hp.calls
  rw [h.asking] at hcalls
  exact ⟨⟨answer, hno, hcalls⟩, hp.untouched, hp.waits⟩

theorem Took.of_same (h : r.Same r') (hp : p.Took r') : p.Took r := by
  have hcalls := hp.calls
  rw [h.asking] at hcalls
  exact ⟨hcalls, hp.untouched, hp.waits⟩

theorem Released.of_same {result : RunResult} (h : r.Same r') (hp : p.Released r' result) :
    p.Released r result := by
  obtain ⟨answer, hcalls⟩ := hp.calls
  rw [h.givingBack] at hcalls
  exact ⟨⟨answer, hcalls⟩, hp.untouched, hp.ends⟩

end Piece

namespace Run

variable [LockStore σ]

/-- The next piece of a run in a world. -/
def piece (r : Run) (w : World σ) : Piece σ := ⟨r, w, (r.advance w).1, (r.advance w).2⟩

/-- The pieces of a run until it ends, each in the next of some worlds. -/
def life (r : Run) : List (World σ) → List (Piece σ)
  | [] => []
  | w :: rest =>
    match (r.advance w).1.run? with
    | some r' => r.piece w :: r'.life rest
    | none => [r.piece w]

/-- A run that goes on makes its other pieces in the worlds that are left. -/
theorem life_cons_of_run {r r' : Run} {w : World σ} (h : (r.advance w).1.run? = some r')
    (rest : List (World σ)) :
    r.life (w :: rest) = r.piece w :: r'.life rest := by
  simp only [life, h]

/-- The life of a run is over with the piece in which it ends. -/
theorem life_cons_of_ended {r : Run} {w : World σ} (h : (r.advance w).1.run? = none)
    (rest : List (World σ)) :
    r.life (w :: rest) = [r.piece w] := by
  simp only [life, h]

/-! ## After the lock is taken -/

/-- The last piece gives the lock back and ends with the result, or as broken if there is none. -/
theorem released_of_releasing {r : Run} {since : Nat} {result : Option RunResult}
    (hphase : r.phase = .releasing since result) (w : World σ) :
    (r.piece w).Released r (result.getD .brokenWrapper) := by
  obtain ⟨hends, -, huntouched⟩ := (r.advances w).of_releasing hphase
  exact ⟨⟨_, calls_of_releasing hphase⟩, huntouched, hends⟩

theorem life_releasing {r : Run} {since : Nat} {result : Option RunResult}
    (hphase : r.phase = .releasing since result) (w : World σ) (rest : List (World σ)) :
    r.life (w :: rest) = [r.piece w] := by
  obtain ⟨hends, -⟩ := (r.advances w).of_releasing hphase
  apply life_cons_of_ended
  rw [hends]
  rfl

/-- What a run makes of a lock that it has: its body between the answer of yes and the release. -/
structure Keeps (r : Run) (middle : List (Piece σ)) (result : RunResult) : Prop where
  silent : ∀ p ∈ middle, p.calls = []
  once : (middle.filter Piece.begins).length ≤ 1
  wellFormed : result.WellFormed
  /-- The result is that of the body.  Only if the declaration could not be read with the lock held
      does the body not begin, and then the result tells that the wrapper broke. -/
  result : (∃ p ∈ middle, ∃ x, p.begins = true ∧ Execution.begin r.job p.found = (x, p.left) ∧
      result = .ofEnding x.ending) ∨
    (∃ p, middle = [p] ∧ unreadable r.job p.found = true ∧ p.begins = false ∧
      result = .brokenWrapper)

/-- A declaration that cannot be read takes a run that has its lock straight to the release. -/
theorem keeps_broken {r : Run} {since : Nat} {w : World σ} (hphase : r.phase = .holding since)
    (hread : unreadable r.job w = true)
    (hrun : (r.advance w).1.run? = some { r with phase := .releasing since none }) :
    r.Keeps [r.piece w] .brokenWrapper := by
  have hbegins : (r.piece w).begins = false := by
    show ((r.advance w).1.run?).any _ = false
    rw [hrun]
    rfl
  refine ⟨?_, ?_, RunResult.wellFormed_brokenWrapper, .inr ⟨r.piece w, rfl, hread, hbegins, rfl⟩⟩
  · intro p hp
    rw [List.mem_singleton.1 hp]
    exact calls_of_holding hphase
  · exact List.length_filter_le _ _

/-- A body that begins takes a run through its end to the release. -/
theorem keeps_begun {r : Run} {since : Nat} {x : Execution} {w : World σ}
    (hphase : r.phase = .holding since)
    (hrun : (r.advance w).1.run? = some { r with phase := .executing since x })
    (hbegin : Execution.begin r.job w = (x, (r.advance w).2)) (w₁ : World σ) :
    r.Keeps [r.piece w, Run.piece { r with phase := .executing since x } w₁]
      (.ofEnding x.ending) := by
  have hends := ((Run.advances { r with phase := .executing since x } w₁).of_executing rfl).1
  have hfirst : (r.piece w).begins = true := by
    show ((r.advance w).1.run?).any _ = true
    rw [hrun]
    rfl
  have hsecond : (Run.piece { r with phase := .executing since x } w₁).begins = false := by
    show ((Run.advance { r with phase := .executing since x } w₁).1.run?).any _ = false
    rw [hends]
    rfl
  refine ⟨?_, ?_, RunResult.wellFormed_ofEnding x.ending,
    .inl ⟨r.piece w, List.mem_cons_self, x, hfirst, hbegin, rfl⟩⟩
  · intro p hp
    rcases List.mem_cons.1 hp with rfl | hp
    · exact calls_of_holding hphase
    · rw [List.mem_singleton.1 hp]
      exact calls_of_executing rfl
  · simp [hfirst, hsecond]

/-- With three more turns a run that has its lock comes to its end. -/
theorem life_holding {r : Run} {since : Nat} (hphase : r.phase = .holding since)
    {worlds : List (World σ)} (hlong : 3 ≤ worlds.length) :
    ∃ middle last result, r.life worlds = middle ++ [last] ∧ r.Keeps middle result ∧
    last.Released r result := by
  match worlds, hlong with
  | w₁ :: w₂ :: w₃ :: rest, _ =>
    rcases (r.advances w₁).of_holding hphase with ⟨hread, hrun, -⟩ | ⟨x, hbegin, hrun⟩
    · have hreleasing : Run.phase { r with phase := .releasing since none } =
          .releasing since none := rfl
      refine ⟨_, _, _, ?_, keeps_broken hphase hread hrun,
        (released_of_releasing hreleasing w₂).of_same (r.same_phase (.releasing since none))⟩
      rw [life_cons_of_run hrun, life_releasing rfl]
      rfl
    · have hexecuting : Run.phase { r with phase := .executing since x } = .executing since x := rfl
      have hrun' : (Run.advance { r with phase := .executing since x } w₂).1.run? =
          some { r with phase := .releasing since (some (.ofEnding x.ending)) } := by
        rw [((Run.advances { r with phase := .executing since x } w₂).of_executing hexecuting).1]
        rfl
      have hreleasing : Run.phase { r with phase := .releasing since (some (.ofEnding x.ending)) } =
          .releasing since (some (.ofEnding x.ending)) := rfl
      refine ⟨_, _, _, ?_, keeps_begun hphase hrun hbegin w₂,
        (released_of_releasing hreleasing w₃).of_same
          (r.same_phase (.releasing since (some (.ofEnding x.ending))))⟩
      rw [life_cons_of_run hrun, life_cons_of_run hrun', life_releasing rfl]
      rfl

/-! ## Attempts -/

/-- Any answer but yes is a refusal, an error of the store too. -/
theorem refused_of_asks {r : Run} {w : World σ} {deadline : Option Nat} {number : Nat}
    (hasks : r.Asks w deadline number) (hno : (r.ask w).1 ≠ .ok true) : (r.piece w).Refused r := by
  obtain ⟨-, huntouched, hcases⟩ := (r.advances w).of_asks hasks
  refine ⟨⟨_, hno, calls_of_asks hasks⟩, huntouched, ?_⟩
  show ((r.advance w).1.run?).any _ = false
  rcases hcases with ⟨hyes, -⟩ | ⟨-, -, moment, -, hp⟩ | ⟨-, hp, -⟩
  · exact absurd hyes hno
  · rw [hp]
    rfl
  · rw [hp]
    rfl

/-- An answer of yes takes the lock, and the run goes on with it. -/
theorem took_of_asks {r : Run} {w : World σ} {deadline : Option Nat} {number : Nat}
    (hasks : r.Asks w deadline number) (hyes : (r.ask w).1 = .ok true) :
    (r.piece w).Took r ∧ (r.advance w).1.run? = some { r with phase := .holding w.elapsed } := by
  obtain ⟨-, huntouched, hcases⟩ := (r.advances w).of_asks hasks
  have hp : (r.advance w).1 = .going { r with phase := .holding w.elapsed } := by
    rcases hcases with ⟨-, hp, -⟩ | ⟨hno, -⟩ | ⟨hno, -⟩
    · exact hp
    · rw [hyes] at hno
      cases hno
    · exact absurd hyes hno
  refine ⟨⟨?_, huntouched, ?_⟩, ?_⟩
  · show r.calls w = _
    rw [calls_of_asks hasks, hyes]
    rfl
  · show ((r.advance w).1.run?).any _ = false
    rw [hp]
    rfl
  · rw [hp]
    rfl

/-! ## Whole lives -/

/-- A run that never got its lock: it only asked, it is skipped, and that is counted once. -/
structure Skips (r : Run) (pieces : List (Piece σ)) : Prop where
  refused : ∀ p ∈ pieces, p.Refused r
  ends : ∃ before last, pieces = before ++ [last] ∧
    (∀ p ∈ before, r.skips p.left = r.skips p.found) ∧
    last.progress = .ended .skipped ∧ r.skips last.left = r.skips last.found + 1

/-- A run that got its lock: refused attempts, the answer of yes, the body, and the release. -/
def Completes (r : Run) (pieces : List (Piece σ)) : Prop :=
  ∃ asked took middle last result, pieces = asked ++ took :: (middle ++ [last]) ∧
    (∀ p ∈ asked, p.Refused r) ∧
    took.Took r ∧ r.Keeps middle result ∧ last.Released r result

/-- What a run makes of its lock is the same at any stage of its life. -/
theorem Keeps.of_same {r r' : Run} {middle : List (Piece σ)} {result : RunResult} (h : r.Same r')
    (hk : r'.Keeps middle result) : r.Keeps middle result := by
  have hresult := hk.result
  rw [h.job] at hresult
  exact ⟨hk.silent, hk.once, hk.wellFormed, hresult⟩

/-- A refusal after which there is no time for another attempt is a whole life. -/
theorem skips_single {r : Run} {w : World σ} {deadline : Option Nat} {number : Nat}
    (hasks : r.Asks w deadline number) (hno : (r.ask w).1 ≠ .ok true)
    (hp : (r.advance w).1 = .ended .skipped) (hcount : r.skips (r.advance w).2 = r.skips w + 1) :
    r.Skips [r.piece w] := by
  refine ⟨?_, [], r.piece w, rfl, ?_, hp, hcount⟩
  · intro p hp
    rw [List.mem_singleton.1 hp]
    exact refused_of_asks hasks hno
  · exact fun p hp => absurd hp List.not_mem_nil

/-- One more refused attempt before a life that is skipped. -/
theorem Skips.cons {r r' : Run} {p : Piece σ} {pieces : List (Piece σ)} (hsame : r.Same r')
    (hp : p.Refused r) (hcount : r.skips p.left = r.skips p.found) (h : r'.Skips pieces) :
    r.Skips (p :: pieces) := by
  obtain ⟨before, last, rfl, hbefore, hends, hlast⟩ := h.ends
  rw [hsame.skips, hsame.skips] at hlast
  refine ⟨?_, p :: before, last, rfl, ?_, hends, hlast⟩
  · intro q hq
    rcases List.mem_cons.1 hq with rfl | hq
    · exact hp
    · exact (h.refused q hq).of_same hsame
  · intro q hq
    rcases List.mem_cons.1 hq with rfl | hq
    · exact hcount
    · rw [← hsame.skips, ← hsame.skips]
      exact hbefore q hq

/-- One more refused attempt before a life that completes. -/
theorem Completes.cons {r r' : Run} {p : Piece σ} {pieces : List (Piece σ)} (hsame : r.Same r')
    (hp : p.Refused r) (h : r'.Completes pieces) : r.Completes (p :: pieces) := by
  obtain ⟨asked, took, middle, last, result, rfl, hasked, htook, hkeeps, hreleased⟩ := h
  refine ⟨p :: asked, took, middle, last, result, rfl, ?_, htook.of_same hsame,
    hkeeps.of_same hsame, hreleased.of_same hsame⟩
  intro q hq
  rcases List.mem_cons.1 hq with rfl | hq
  · exact hp
  · exact (hasked q hq).of_same hsame

/-- After a piece that waits the next one comes no earlier. -/
theorem inTime_cons {r r' : Run} {w w' : World σ} {moment : Nat} {rest : List (World σ)}
    (hp : (r.advance w).1 = .waiting moment r')
    (h : Piece.InTime (r.piece w :: r'.life (w' :: rest))) :
    moment ≤ w'.elapsed ∧ Piece.InTime (r'.life (w' :: rest)) := by
  have hwakes : (r.piece w).wakes = moment := by
    show (match (r.advance w).1 with
      | .waiting moment _ => moment
      | _ => 0) = moment
    rw [hp]
  unfold life at h ⊢
  split at h
  · rw [← hwakes]
    exact h
  · rw [← hwakes]
    exact h

/-- The life of a run that asks, by induction on the worlds: each refused attempt uses up one of
    those for which there is time. -/
theorem life_asks (worlds : List (World σ)) :
    ∀ (r : Run) (w : World σ) (deadline : Option Nat) (number count : Nat),
    r.Asks w deadline number → r.guard.lock.RunsOut deadline w.elapsed (w :: worlds) count →
    Piece.InTime (r.life (w :: worlds)) → count + 3 ≤ worlds.length →
    r.Skips (r.life (w :: worlds)) ∨ r.Completes (r.life (w :: worlds)) := by
  induction worlds with
  | nil =>
    intro r w deadline number count hasks hrunsOut hintime hlong
    simp at hlong
  | cons w' rest ih =>
    intro r w deadline number count hasks hrunsOut hintime hlong
    obtain ⟨-, -, hcases⟩ := (r.advances w).of_asks hasks
    rcases hcases with ⟨hyes, -⟩ | ⟨hno, hcount, moment, hretry, hp⟩ | ⟨hno, hp, hcount⟩
    · obtain ⟨htook, hrun⟩ := took_of_asks hasks hyes
      -- the lock is taken: three more turns and the run is at its end
      have hheld : Run.phase { r with phase := .holding w.elapsed } = .holding w.elapsed := rfl
      have hthree : 3 ≤ (w' :: rest).length := by omega
      obtain ⟨middle, last, result, hlife, hkeeps, hreleased⟩ := life_holding hheld hthree
      have hsame := r.same_phase (.holding w.elapsed)
      rw [life_cons_of_run hrun, hlife]
      exact .inr ⟨[], _, middle, last, result, rfl, fun p hp => absurd hp List.not_mem_nil, htook,
        hkeeps.of_same hsame, hreleased.of_same hsame⟩
    · obtain ⟨last, rfl, rfl, hmoment⟩ := Lock.retryAt?_eq_some hretry
      have hrun : (r.advance w).1.run? = some { r with phase := .polling (some last) number } := by
        rw [hp]
        rfl
      have hrefused : (r.piece w).Refused r := by
        apply refused_of_asks hasks
        rw [hno]
        nofun
      have hsame := r.same_phase (.polling (some last) number)
      rw [life_cons_of_run hrun] at hintime ⊢
      obtain ⟨hlater, hrest⟩ := inTime_cons hp hintime
      cases count with
      | zero => exact absurd hmoment (Nat.not_le.2 (hrunsOut.lt_of_zero rfl))
      | succ count =>
        have hlong' : count + 3 ≤ rest.length := by
          rw [List.length_cons] at hlong
          omega
        have hasks' : Run.Asks { r with phase := .polling (some last) number } w'
            (some last) (number + 1) :=
          .inr ⟨number, rfl, rfl⟩
        rcases ih _ w' (some last) (number + 1) count hasks'
          (hrunsOut.tail hlater) hrest hlong' with hskips | hcompletes
        · exact .inl (hskips.cons hsame hrefused hcount)
        · exact .inr (hcompletes.cons hsame hrefused)
    · have hended : (r.advance w).1.run? = none := by
        rw [hp]
        rfl
      rw [life_cons_of_ended hended]
      exact .inl (skips_single hasks hno hp hcount)

/-! ## Bodies only run under a lock -/

/-- The body begins at most once, and only in a piece after one in which the store said yes. -/
def BeginsAfterYes (r : Run) (pieces : List (Piece σ)) : Prop :=
  (pieces.filter Piece.begins).length ≤ 1 ∧
    ∀ before p after, pieces = before ++ p :: after → p.begins = true → ∃ q ∈ before, q.Took r

/-- After its end no body begins. -/
theorem life_after_body {r : Run} {since : Nat} {result : Option RunResult}
    (hphase : r.phase = .releasing since result) (worlds : List (World σ)) :
    ∀ p ∈ r.life worlds, p.begins = false := by
  intro p hp
  cases worlds with
  | nil => exact absurd hp List.not_mem_nil
  | cons w rest =>
    rw [life_releasing hphase, List.mem_singleton] at hp
    rw [hp]
    show ((r.advance w).1.run?).any _ = false
    rw [((r.advances w).of_releasing hphase).1]
    rfl

/-- While a body runs no other begins. -/
theorem life_during_body {r : Run} {since : Nat} {x : Execution}
    (hphase : r.phase = .executing since x) (worlds : List (World σ)) :
    ∀ p ∈ r.life worlds, p.begins = false := by
  intro p hp
  cases worlds with
  | nil => exact absurd hp List.not_mem_nil
  | cons w rest =>
    -- the body ends in its next piece and never begins again
    have hrun : (r.advance w).1.run? =
        some { r with phase := .releasing since (some (.ofEnding x.ending)) } := by
      rw [((r.advances w).of_executing hphase).1]
      rfl
    rw [life_cons_of_run hrun] at hp
    rcases List.mem_cons.1 hp with rfl | hp
    · show ((r.advance w).1.run?).any _ = false
      rw [hrun]
      rfl
    · exact life_after_body rfl rest p hp

/-- With the lock the body begins at most once. -/
theorem begins_once {r : Run} {since : Nat} (hphase : r.phase = .holding since)
    (worlds : List (World σ)) :
    ((r.life worlds).filter Piece.begins).length ≤ 1 := by
  have hone (p : Piece σ) (rest : List (Piece σ)) (h : ∀ q ∈ rest, q.begins = false) :
      ((p :: rest).filter Piece.begins).length ≤ 1 := by
    -- no body begins after the first piece
    have hnone : rest.filter Piece.begins = [] := by
      rw [List.filter_eq_nil_iff]
      intro q hq
      rw [h q hq]
      exact Bool.false_ne_true
    rw [List.filter_cons, hnone]
    split <;> simp
  cases worlds with
  | nil => exact Nat.zero_le 1
  | cons w rest =>
    rcases (r.advances w).of_holding hphase with ⟨-, hrun, -⟩ | ⟨x, -, hrun⟩
    · rw [life_cons_of_run hrun]
      exact hone _ _ (life_after_body rfl rest)
    · rw [life_cons_of_run hrun]
      exact hone _ _ (life_during_body rfl rest)

/-- A piece without the body before a life that begins it only after an answer of yes. -/
theorem BeginsAfterYes.cons {r : Run} {p : Piece σ} {pieces : List (Piece σ)}
    (hp : p.begins = false) (hone : (pieces.filter Piece.begins).length ≤ 1)
    (hyes : ∀ before q after, pieces = before ++ q :: after → q.begins = true →
      p.Took r ∨ ∃ q' ∈ before, q'.Took r) :
    r.BeginsAfterYes (p :: pieces) := by
  refine ⟨?_, ?_⟩
  · rw [List.filter_cons, hp]
    exact hone
  · intro before q after heq hq
    cases before with
    | nil =>
      cases heq
      rw [hp] at hq
      cases hq
    | cons p' before =>
      obtain ⟨rfl, hrest⟩ := List.cons.inj heq
      rcases hyes before q after hrest hq with htook | ⟨q', hq', htook⟩
      · exact ⟨p, List.mem_cons_self, htook⟩
      · exact ⟨q', List.mem_cons_of_mem p hq', htook⟩

/-- Whatever worlds a run meets that has not been told yes, its body begins once at most and after
    an answer of yes. -/
theorem begins_after_yes (worlds : List (World σ)) : ∀ r : Run,
    (∀ w ∈ worlds.head?, ∃ deadline number, r.Asks w deadline number) →
    r.BeginsAfterYes (r.life worlds) := by
  induction worlds with
  | nil =>
    intro r _
    refine ⟨Nat.zero_le 1, ?_⟩
    intro before p after heq
    exact absurd heq.symm (List.append_ne_nil_of_right_ne_nil _ (List.cons_ne_nil _ _))
  | cons w rest ih =>
    intro r hhead
    obtain ⟨deadline, number, hasks⟩ := hhead w rfl
    obtain ⟨-, -, hcases⟩ := (r.advances w).of_asks hasks
    rcases hcases with ⟨hyes, -⟩ | ⟨hno, -, moment, -, hp⟩ | ⟨hno, hp, -⟩
    · -- a yes, after which the body can begin
      obtain ⟨htook, hrun⟩ := took_of_asks hasks hyes
      rw [life_cons_of_run hrun]
      exact .cons htook.waits (begins_once rfl rest) (fun _ _ _ _ _ => .inl htook)
    · -- a refusal with time left: the rest of the life is that of the polling run
      have hrun : (r.advance w).1.run? = some { r with phase := .polling deadline number } := by
        rw [hp]
        rfl
      have hrefused : (r.piece w).Refused r := by
        apply refused_of_asks hasks
        rw [hno]
        nofun
      obtain ⟨hone, hyes⟩ := ih { r with phase := .polling deadline number }
        (fun w' _ => ⟨deadline, number + 1, .inr ⟨number, rfl, rfl⟩⟩)
      rw [life_cons_of_run hrun]
      refine .cons hrefused.waits hone ?_
      intro before q after heq hq
      obtain ⟨q', hq', htook⟩ := hyes before q after heq hq
      exact .inr ⟨q', hq', htook.of_same (r.same_phase (.polling deadline number))⟩
    · -- a refusal without: the life is over
      have hended : (r.advance w).1.run? = none := by
        rw [hp]
        rfl
      rw [life_cons_of_ended hended]
      refine .cons (refused_of_asks hasks hno).waits (Nat.zero_le 1) ?_
      intro before q after heq
      exact absurd heq.symm (List.append_ne_nil_of_right_ne_nil _ (List.cons_ne_nil _ _))

/-! ## The store in memory -/

/-- Every piece of a life is one of its run. -/
theorem mem_life {worlds : List (World σ)} : ∀ {r : Run} {p : Piece σ}, p ∈ r.life worlds →
    ∃ r' w, r.Same r' ∧ p = r'.piece w := by
  induction worlds with
  | nil => exact fun hp => absurd hp List.not_mem_nil
  | cons w rest ih =>
    intro r p hp
    cases hrun : (r.advance w).1.run? with
    | none =>
      rw [life_cons_of_ended hrun, List.mem_singleton] at hp
      exact ⟨r, w, ⟨rfl, rfl, rfl⟩, hp⟩
    | some r₁ =>
      rw [life_cons_of_run hrun] at hp
      have hsame := (r.advances w).same hrun
      rcases List.mem_cons.1 hp with rfl | hp
      · exact ⟨r, w, ⟨rfl, rfl, rfl⟩, rfl⟩
      · obtain ⟨r', w', hsame', rfl⟩ := ih hp
        exact ⟨r', w', hsame.trans hsame', rfl⟩

/-- Only a run that is about to give its lock back deletes a key. -/
theorem releasing_of_calls {r r₀ : Run} {w : World σ} {answer : Except LockStoreError Bool}
    (h : r.calls w = [r₀.givingBack answer]) : (∃ since result, r.phase = .releasing since result) ∧
      (r.giveBack w).1 = answer := by
  cases hphase : r.phase with
  | entering =>
    cases hread : unreadable r.job w with
    | true =>
      rw [calls_of_unreadable hphase hread] at h
      cases h
    | false =>
      rw [calls_of_asks (.inl ⟨hphase, hread, rfl, rfl⟩)] at h
      cases h
  | polling deadline attempts =>
    rw [calls_of_asks (.inr ⟨attempts, hphase, rfl⟩)] at h
    cases h
  | holding since =>
    rw [calls_of_holding hphase] at h
    cases h
  | executing since x =>
    rw [calls_of_executing hphase] at h
    cases h
  | releasing since result =>
    rw [calls_of_releasing hphase] at h
    obtain ⟨hcall, -⟩ := List.cons.inj h
    obtain ⟨-, -, hanswer⟩ := StoreCall.compareAndDelete.inj hcall
    exact ⟨⟨since, result, rfl⟩, hanswer⟩

/-- After a release that the store in memory answers, the key does not have the holder. -/
theorem released_in_memory {worlds : List (World FaultyStore)} {r : Run}
    {p : Piece FaultyStore} {answer : Bool} (hp : p ∈ r.life worlds)
    (hcalls : p.calls = [r.givingBack (.ok answer)]) :
    p.left.locks.memory.holder? p.left.elapsed r.key ≠ some r.guard.lock.holder := by
  obtain ⟨r', w, hsame, rfl⟩ := mem_life hp
  obtain ⟨⟨since, result, hphase⟩, hanswer⟩ := releasing_of_calls hcalls
  obtain ⟨-, hstill, -⟩ := (r'.advances w).of_releasing hphase
  have hcleared := FaultyStore.holder?_compareAndDelete hanswer
  show (r'.advance w).2.locks.memory.holder? (r'.advance w).2.elapsed r.key ≠ _
  rw [hstill.locks, hstill.elapsed, ← hsame.key, ← hsame.guard]
  exact hcleared

/-! ## The whole guard -/

/-- **Fail closed.**  For every store and every interference, a run whose declaration can be read at
    first begins its body at most once, after an answer of yes; and if it comes to its turns until
    there is no time for a further attempt it ends, either skipped and counted so once, having only
    asked for its lock, or completed with a well-formed result, having given its lock back once and
    last.  With a positive delay the time runs out by itself (`Lock.runsOut_of_delay`), without one
    when the clock has passed the deadline.  In a store in memory the holder of the key is then
    gone, unless the release failed. -/
theorem fail_closed (r : Run) (hentering : r.phase = .entering) :
    (∀ (σ : Type) [LockStore σ] (w : World σ) (worlds : List (World σ)),
      unreadable r.job w = false →
      r.BeginsAfterYes (r.life (w :: worlds)) ∧
        (Piece.InTime (r.life (w :: worlds)) → ∀ count, count + 3 ≤ worlds.length →
          r.guard.lock.RunsOut (Lock.deadline? r.guard.acquireTimeout w.elapsed) w.elapsed
            (w :: worlds) count →
            r.Skips (r.life (w :: worlds)) ∨ r.Completes (r.life (w :: worlds)))) ∧
    ∀ (worlds : List (World FaultyStore)) (p : Piece FaultyStore) (answer : Bool),
      p ∈ r.life worlds →
      p.calls = [r.givingBack (.ok answer)] →
        p.left.locks.memory.holder? p.left.elapsed r.key ≠ some r.guard.lock.holder := by
  refine ⟨?_, fun worlds p answer hp hcalls => released_in_memory hp hcalls⟩
  intro σ _ w worlds hread
  have hasks : r.Asks w (Lock.deadline? r.guard.acquireTimeout w.elapsed) 1 :=
    .inl ⟨hentering, hread, rfl, rfl⟩
  refine ⟨begins_after_yes (w :: worlds) r ?_, ?_⟩
  · rintro w' ⟨⟩
    exact ⟨_, _, hasks⟩
  · intro hintime count hlong hrunsOut
    exact life_asks worlds r w _ 1 count hasks hrunsOut hintime hlong

/-- A run of a job that sleeps, which waits two milliseconds for its lock. -/
def patient : Run :=
  ⟨⟨⟨"job_lock", .scheduler 0, 1⟩, 600000, some 2, .ledger⟩, .sleeper 2000 [300],
    .scheduled, .entering⟩

/-- A world in which nobody has the lock. -/
def vacant (elapsed : Nat) : World FaultyStore := { start := ⟨0⟩, elapsed := elapsed, locks := {} }

/-- A world in which the lock is held elsewhere. -/
def crowded (elapsed : Nat) : World FaultyStore :=
  { start := ⟨0⟩, elapsed := elapsed,
    locks := { memory := ⟨[("job_lock:sleeper", ⟨.scheduler 1, elapsed + 1⟩)]⟩ } }

/-- The same run without a delay between its attempts. -/
def restless : Run :=
  { patient with
    guard := { patient.guard with lock := { patient.guard.lock with retryDelay := 0 } } }

/-- The last piece of the run gives the lock back. -/
def farewell : Piece FaultyStore :=
  Run.piece { patient with phase := .releasing 1 (some (.ofEnding (.returned ⟨true, "ok", none⟩))) }
    (vacant 301)

/-- Refused at first, the run takes its lock at the second attempt and comes to its end.  Without a
    delay it asks again and again until the clock has passed the deadline. -/
theorem fail_closed_patient :
    let life := patient.life (crowded 0 :: [vacant 1, vacant 1, vacant 301, vacant 301, vacant 301])
    let vain := restless.life (crowded 0 :: [crowded 0, crowded 0, crowded 3, crowded 3,
      crowded 3, crowded 3])
    patient.BeginsAfterYes life ∧ (patient.Skips life ∨ patient.Completes life) ∧
      (restless.Skips vain ∨ restless.Completes vain) ∧
      farewell.left.locks.memory.holder? 301 "job_lock:sleeper" ≠ some (.scheduler 0) := by
  obtain ⟨hstores, hmemory⟩ := fail_closed patient rfl
  obtain ⟨hbegins, hends⟩ :=
    hstores FaultyStore (crowded 0) [vacant 1, vacant 1, vacant 301, vacant 301, vacant 301] rfl
  have hlast : farewell ∈
      patient.life (crowded 0 :: [vacant 1, vacant 1, vacant 301, vacant 301, vacant 301]) := by
    apply List.mem_of_getElem? (i := 4)
    rfl
  have hrunsOut := Lock.runsOut_of_delay (l := patient.guard.lock) (by decide) (some 2) 0
    [crowded 0, vacant 1, vacant 1, vacant 301, vacant 301, vacant 301]
  obtain ⟨-, hvain⟩ := (fail_closed restless rfl).1 FaultyStore (crowded 0)
    [crowded 0, crowded 0, crowded 3, crowded 3, crowded 3, crowded 3] rfl
  have hpassed : restless.guard.lock.RunsOut (some 2) 0
      [crowded 0, crowded 0, crowded 0, crowded 3, crowded 3, crowded 3, crowded 3] 3 := by
    rintro last ⟨⟩
    exact .inr ⟨crowded 3, rfl, by decide⟩
  exact ⟨hbegins, hends (by decide +kernel) 2 (by decide) hrunsOut,
    hvain (by decide +kernel) 3 (by decide) hpassed, hmemory _ farewell false hlast rfl⟩

end Run

end JobFleet
