import Fractonica.Lib.Result
import Mathlib.Logic.Relation

namespace Fractonica.Lib

open List

-- A call as the effects on a shared state that it makes one by one. Between
-- two of them other calls make theirs, or the process ends.
inductive Program (Effect : Type) (Answer : Effect → Type) (ε α : Type) where
  | done (result : Except ε α)
  | perform (effect : Effect) (next : Answer effect → Program Effect Answer ε α)

namespace Program

variable {Effect : Type} {Answer : Effect → Type} {ε α β σ : Type}

def bind (first : Program Effect Answer ε α) (rest : α → Program Effect Answer ε β) :
    Program Effect Answer ε β :=
  match first with
  | done (.ok a) => rest a
  | done (.error e) => done (.error e)
  | perform effect next => perform effect fun answer => (next answer).bind rest

instance : Monad (Program Effect Answer ε) where
  pure a := done (.ok a)
  bind := bind

-- The effect by itself, with its answer.
def ask (effect : Effect) : Program Effect Answer ε (Answer effect) :=
  perform effect fun answer => done (.ok answer)

@[simp] theorem done_ok_bind (a : α) (rest : α → Program Effect Answer ε β) :
    (done (.ok a) >>= rest) = rest a := rfl

section Semantics

variable (handle : (effect : Effect) → σ → Answer effect × σ)

-- The call when nothing comes between its effects.
def run : Program Effect Answer ε α → σ → Except ε α × σ
  | done result, s => (result, s)
  | perform effect next, s => (next (handle effect s).1).run (handle effect s).2

variable {handle}

theorem run_bind_ok {rest : α → Program Effect Answer ε β} (h : first.run handle s = (.ok a, s')) :
    (first >>= rest).run handle s = (rest a).run handle s' := by
  induction first generalizing s with
  | done result =>
    obtain ⟨rfl, rfl⟩ := Prod.mk.inj h
    rfl
  | perform effect next ih => exact ih _ h

end Semantics

section Rules

-- What the others may do between two effects, when an effect is looked at, and
-- what an effect must have done.
variable (handle : (effect : Effect) → σ → Answer effect × σ) (rely : σ → σ → Prop)
  (allowed : Effect → σ → Prop) (guarantee : Effect → σ → σ → Prop)

-- Whatever the others do, the effects keep the guarantee and the call ends with
-- the postcondition.
def Keeps (post : Except ε α → σ → Prop) : Program Effect Answer ε α → σ → Prop
  | done result, s => post result s
  | perform effect next, s => ∀ s', rely s s' → allowed effect s' →
      guarantee effect s' (handle effect s').2 ∧
        (next (handle effect s').1).Keeps post (handle effect s').2

variable {handle rely allowed guarantee} {post : Except ε α → σ → Prop}

theorem Keeps.mono {program : Program Effect Answer ε α}
    (h : program.Keeps handle rely allowed guarantee post s)
    (hpost : ∀ result s', post result s' → post' result s') :
    program.Keeps handle rely allowed guarantee post' s := by
  induction program generalizing s with
  | done result => exact hpost result s h
  | perform effect next ih =>
    intro s' hrely hallowed
    exact ⟨(h s' hrely hallowed).1, ih _ (h s' hrely hallowed).2⟩

theorem Keeps.bind {first : Program Effect Answer ε α} {rest : α → Program Effect Answer ε β}
    {post : Except ε β → σ → Prop} {s : σ}
    (h : first.Keeps handle rely allowed guarantee (fun result s' => match result with
      | .ok a => (rest a).Keeps handle rely allowed guarantee post s'
      | .error e => post (.error e) s') s) :
    (first >>= rest).Keeps handle rely allowed guarantee post s := by
  induction first generalizing s with
  | done result =>
    cases result with
    | ok a => exact h
    | error e => exact h
  | perform effect next ih =>
    intro s' hrely hallowed
    exact ⟨(h s' hrely hallowed).1, ih _ (h s' hrely hallowed).2⟩

-- The others do no harm before the next effect either.
theorem Keeps.later {program : Program Effect Answer ε α}
    (h : program.Keeps handle rely allowed guarantee post s)
    (htrans : ∀ s'', rely s' s'' → rely s s'')
    (hstable : ∀ result, post result s → post result s') :
    program.Keeps handle rely allowed guarantee post s' := by
  cases program with
  | done result => exact hstable result h
  | perform effect next =>
    intro s'' hlater hallowed
    exact h s'' (htrans s'' hlater) hallowed

end Rules

end Program

section Services

variable (Call Effect : Type) (Answer : Effect → Type) (ε α σ : Type)

-- A process that serves calls. It starts with a call that recovers, and serves
-- the others once that one succeeded.
structure Service where
  handle : (effect : Effect) → σ → Answer effect × σ
  body : Call → Program Effect Answer ε α
  recovers : Call → Bool
  outside : σ → σ → Prop

structure Task where
  call : Call
  program : Program Effect Answer ε α

structure System where
  state : σ
  serving : Bool
  tasks : List (Task Call Effect Answer ε α)
  answers : List (Call × Except ε α)

inductive Event where
  | started (call : Call)
  | restarted (call : Call)
  | performed (call : Call) (effect : Effect)
  | finished (call : Call)
  | outside

variable {Call Effect Answer ε α σ}

-- The steps of all running calls in any order, with crashes in between.
inductive Service.Step (S : Service Call Effect Answer ε α σ) :
    System Call Effect Answer ε α σ → Event Call Effect → System Call Effect Answer ε α σ → Prop
  | start {y : System Call Effect Answer ε α σ} {call : Call} (serving : y.serving = true)
      (ordinary : S.recovers call = false) :
      S.Step y (.started call) { y with tasks := y.tasks ++ [⟨call, S.body call⟩] }
  | restart {y : System Call Effect Answer ε α σ} {call : Call}
      (recovers : S.recovers call = true) :
      S.Step y (.restarted call) { y with serving := false, tasks := [⟨call, S.body call⟩] }
  | perform {y : System Call Effect Answer ε α σ} {call : Call} {effect : Effect}
      {next : Answer effect → Program Effect Answer ε α}
      {front back : List (Task Call Effect Answer ε α)}
      (tasks : y.tasks = front ++ ⟨call, .perform effect next⟩ :: back) :
      S.Step y (.performed call effect)
        { y with state := (S.handle effect y.state).2
                 tasks := front ++ ⟨call, next (S.handle effect y.state).1⟩ :: back }
  | finish {y : System Call Effect Answer ε α σ} {call : Call} {result : Except ε α}
      {front back : List (Task Call Effect Answer ε α)}
      (tasks : y.tasks = front ++ ⟨call, .done result⟩ :: back) :
      S.Step y (.finished call)
        { y with serving := y.serving || (S.recovers call && result.isOk)
                 tasks := front ++ back
                 answers := y.answers ++ [(call, result)] }
  | outside {y : System Call Effect Answer ε α σ} {s : σ} (step : S.outside y.state s) :
      S.Step y .outside { y with state := s }

-- What is promised of the calls of a service: an invariant of the state, how the
-- state may change over time, what each effect does, and what each answer says.
structure Contract (Call Effect ε α σ : Type) where
  invariant : σ → Prop
  later : σ → σ → Prop
  allowed : Call → Effect → σ → Prop
  guarantee : Call → Effect → σ → σ → Prop
  post : Call → Except ε α → σ → Prop

namespace Contract

variable (C : Contract Call Effect ε α σ)

def rely (s s' : σ) : Prop := C.invariant s' ∧ C.later s s'

def permits (state : σ) : Event Call Effect → Prop
  | .performed call effect => C.allowed call effect state
  | _ => True

def Keeps (S : Service Call Effect Answer ε α σ) (call : Call)
    (program : Program Effect Answer ε α) (s : σ) : Prop :=
  program.Keeps S.handle C.rely (C.allowed call) (C.guarantee call) (C.post call) s

structure Holds (S : Service Call Effect Answer ε α σ) : Prop where
  refl : ∀ s, C.later s s
  trans : ∀ s s' s'', C.later s s' → C.later s' s'' → C.later s s''
  stable : ∀ call result s s', C.post call result s → C.later s s' → C.post call result s'
  guaranteed : ∀ call effect s s', C.invariant s → C.guarantee call effect s s' → C.rely s s'
  outside : ∀ s s', C.invariant s → S.outside s s' → C.rely s s'
  bodies : ∀ call s, C.invariant s → C.Keeps S call (S.body call) s

-- The runs in which every effect is allowed.
def Step (S : Service Call Effect Answer ε α σ) (y z : System Call Effect Answer ε α σ) : Prop :=
  ∃ event, S.Step y event z ∧ C.permits y.state event

def Run (S : Service Call Effect Answer ε α σ) :
    System Call Effect Answer ε α σ → System Call Effect Answer ε α σ → Prop :=
  Relation.ReflTransGen (C.Step S)

structure Good (S : Service Call Effect Answer ε α σ) (y : System Call Effect Answer ε α σ) :
    Prop where
  invariant : C.invariant y.state
  tasks : ∀ task ∈ y.tasks, C.Keeps S task.call task.program y.state
  answers : ∀ answer ∈ y.answers, C.post answer.1 answer.2 y.state

variable {C} {S : Service Call Effect Answer ε α σ} {y z : System Call Effect Answer ε α σ}

theorem Holds.rely_trans (h : C.Holds S) (hlater : C.later s s')
    (hrely : C.rely s' s'') : C.rely s s'' :=
  ⟨hrely.1, h.trans s s' s'' hlater hrely.2⟩

theorem Holds.keeps_later (h : C.Holds S) (hkeeps : C.Keeps S call program s)
    (hrely : C.rely s s') :
    C.Keeps S call program s' :=
  Program.Keeps.later hkeeps (fun _ hlater => h.rely_trans hrely.2 hlater)
    fun result hpost => h.stable call result s s' hpost hrely.2

theorem Holds.good_of_rely (h : C.Holds S) (hgood : C.Good S y)
    (hrely : C.rely y.state s) : C.Good S { y with state := s } where
  invariant := hrely.1
  tasks task htask := h.keeps_later (hgood.tasks task htask) hrely
  answers answer hanswer := h.stable _ _ _ _ (hgood.answers answer hanswer) hrely.2

-- What the next effect of a running call does.
theorem Holds.performs (h : C.Holds S) (hgood : C.Good S y)
    {next : Answer effect → Program Effect Answer ε α}
    (htask : ⟨call, .perform effect next⟩ ∈ y.tasks) (hallowed : C.allowed call effect y.state) :
    C.guarantee call effect y.state (S.handle effect y.state).2 ∧
      C.Keeps S call (next (S.handle effect y.state).1) (S.handle effect y.state).2 :=
  hgood.tasks _ htask y.state ⟨hgood.invariant, h.refl y.state⟩ hallowed

theorem Holds.good_step (h : C.Holds S) (hgood : C.Good S y) (hstep : C.Step S y z) :
    C.Good S z ∧ C.later y.state z.state := by
  obtain ⟨event, hstep, hpermits⟩ := hstep
  cases hstep with
  | @start call serving ordinary =>
    refine ⟨⟨hgood.invariant, ?_, hgood.answers⟩, h.refl _⟩
    intro task htask
    rcases mem_append.mp htask with htask | htask
    · exact hgood.tasks task htask
    · rw [mem_singleton.mp htask]
      exact h.bodies call y.state hgood.invariant
  | @restart call recovers =>
    refine ⟨⟨hgood.invariant, ?_, hgood.answers⟩, h.refl _⟩
    intro task htask
    rw [mem_singleton.mp htask]
    exact h.bodies call y.state hgood.invariant
  | @perform call effect next front back tasks =>
    have htask : ⟨call, .perform effect next⟩ ∈ y.tasks := by simp [tasks]
    obtain ⟨hguarantee, hnext⟩ := h.performs hgood htask hpermits
    have hrely := h.guaranteed call effect _ _ hgood.invariant hguarantee
    have hothers := h.good_of_rely hgood hrely
    refine ⟨⟨hrely.1, ?_, hothers.answers⟩, hrely.2⟩
    intro task hmem
    have hother : ∀ other ∈ front ++ back,
        C.Keeps S other.call other.program (S.handle effect y.state).2 := by
      intro other hother
      apply hothers.tasks other
      simp only [tasks, mem_append, mem_cons] at hother ⊢
      exact hother.imp_right .inr
    rcases mem_append.mp hmem with hmem | hmem
    · exact hother task (mem_append_left _ hmem)
    · rcases mem_cons.mp hmem with rfl | hmem
      · exact hnext
      · exact hother task (mem_append_right _ hmem)
  | @finish call result front back tasks =>
    refine ⟨⟨hgood.invariant, ?_, ?_⟩, h.refl _⟩
    · intro task htask
      apply hgood.tasks task
      simp only [tasks, mem_append, mem_cons] at htask ⊢
      exact htask.imp_right .inr
    · intro answer hanswer
      rcases mem_append.mp hanswer with hanswer | hanswer
      · exact hgood.answers answer hanswer
      · rw [mem_singleton.mp hanswer]
        exact hgood.tasks ⟨call, .done result⟩ (by simp [tasks])
  | @outside s step =>
    have hrely := h.outside _ _ hgood.invariant step
    exact ⟨h.good_of_rely hgood hrely, hrely.2⟩

-- Over a whole run the invariant holds, the state only moves on, and the answers
-- stay true.
theorem Holds.good_run (h : C.Holds S) (hgood : C.Good S y) (hrun : C.Run S y z) :
    C.Good S z ∧ C.later y.state z.state := by
  induction hrun with
  | refl => exact ⟨hgood, h.refl _⟩
  | tail _ hstep ih =>
    obtain ⟨hnext, hlater⟩ := h.good_step ih.1 hstep
    exact ⟨hnext, h.trans _ _ _ ih.2 hlater⟩

-- In a good system every effect keeps its guarantee.
theorem Holds.guarantee_of_step (h : C.Holds S) (hgood : C.Good S y)
    (hstep : S.Step y (.performed call effect) z) (hallowed : C.allowed call effect y.state) :
    C.guarantee call effect y.state z.state := by
  cases hstep with
  | @perform _ _ next front back tasks =>
    have htask : ⟨call, .perform effect next⟩ ∈ y.tasks := by simp [tasks]
    exact (h.performs hgood htask hallowed).1

end Contract

section Alone

variable {S : Service Call Effect Answer ε α σ} {y : System Call Effect Answer ε α σ} {call : Call}

-- One call has been served to its end, without interruption.
def Service.after (S : Service Call Effect Answer ε α σ) (y : System Call Effect Answer ε α σ)
    (call : Call) (outcome : Except ε α × σ) : System Call Effect Answer ε α σ where
  state := outcome.2
  serving := y.serving || (S.recovers call && outcome.1.isOk)
  tasks := []
  answers := y.answers ++ [(call, outcome.1)]

theorem Service.performs {next : Answer effect → Program Effect Answer ε α}
    (htasks : y.tasks = [⟨call, .perform effect next⟩]) :
    S.Step y (.performed call effect)
      { y with state := (S.handle effect y.state).2
               tasks := [⟨call, next (S.handle effect y.state).1⟩] } := by
  have hsplit : y.tasks = [] ++ ⟨call, .perform effect next⟩ :: [] := htasks
  exact .perform hsplit

theorem Service.ends (htasks : y.tasks = [⟨call, program⟩]) :
    Relation.ReflTransGen (fun y z => ∃ event, S.Step y event z) y
      (S.after y call (program.run S.handle y.state)) := by
  induction program generalizing y with
  | done result =>
    have hsplit : y.tasks = [] ++ ⟨call, .done result⟩ :: [] := htasks
    exact .single ⟨_, .finish hsplit⟩
  | perform effect next ih => exact .head ⟨_, performs htasks⟩ (ih _ rfl)

theorem Service.serves (hserving : y.serving = true) (hidle : y.tasks = [])
    (hordinary : S.recovers call = false) :
    Relation.ReflTransGen (fun y z => ∃ event, S.Step y event z) y
      (S.after y call ((S.body call).run S.handle y.state)) := by
  have hstart := Service.Step.start (S := S) hserving hordinary
  rw [hidle] at hstart
  exact .head ⟨_, hstart⟩ (ends rfl)

theorem Service.restarts (hrecovers : S.recovers call = true) :
    Relation.ReflTransGen (fun y z => ∃ event, S.Step y event z) y
      (S.after { y with serving := false } call ((S.body call).run S.handle y.state)) :=
  .head ⟨_, .restart hrecovers⟩ (ends rfl)

end Alone

end Services

end Fractonica.Lib
