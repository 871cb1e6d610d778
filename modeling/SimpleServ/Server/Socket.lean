import SimpleServ.Cxx.Text
import SimpleServ.Lib.Transition

/-
  What the accept loops of both servers share: the results of system calls, `errno`, the
  receive buffer, and the record of what a loop did (`Loop`).

  The environment decides how a call ends. A call that succeeds leaves `errno` as it was.
  `NoConnectionDropped` says of a record that no descriptor is forgotten: between the call of
  `accept4` that gave it and the next one it was added to the thread pool once, or closed.
-/

namespace SimpleServ.Server

open SimpleServ.Cxx

def MAXBUFLEN : Nat := 4096

/-- The values of `errno` that the loops tell apart. -/
inductive Errno where
  | EAGAIN
  | other (code : Int)
  deriving DecidableEq, Repr

/-- How a system call ends; with an error it gives `-1`. -/
inductive CallResult (α : Type) where
  | ok (value : α)
  | error (errno : Errno)
  deriving DecidableEq, Repr

/-! ## The receive buffer -/

/-- `std::array<char, MAXBUFLEN> buf{}`. -/
def zeroBuf : Bytes := List.replicate MAXBUFLEN 0

/-- A read writes what it delivers to the front of the buffer. -/
def readInto (buf bytes : Bytes) : Bytes := bytes ++ buf.drop bytes.length

/-- `buf.at(numbytes) = '\0'` and then the string that starts at `buf.data()`. -/
def requestStr (buf : Bytes) (numbytes : Nat) : Bytes := (buf.set numbytes 0).takeWhile (· ≠ 0)

/-! ## The record of a loop -/

/-- `accept4 client_fd` is a call that gave `client_fd`. -/
inductive Action (C : Type) where
  | accept4 (client_fd : Int)
  | addTask (obj : C)
  | close (fd : Int)
  deriving DecidableEq, Repr

section Record

variable {C : Type}

def note (last : Option (Int × List (Action C))) : Action C → Option (Int × List (Action C))
  | .accept4 client_fd => some (client_fd, [])
  | action => last.map fun (client_fd, since) => (client_fd, since ++ [action])

/-- What `accept4` gave last, and what was done since. -/
def sinceAccept (log : List (Action C)) : Option (Int × List (Action C)) := log.foldl note none

def handsOver (fdOf : C → Int) (fd : Int) : Action C → Bool
  | .addTask obj => fdOf obj == fd
  | _ => false

/-- The descriptor that `accept4` gave last has been added to the pool once, or closed. -/
def Settled (fdOf : C → Int) (log : List (Action C)) : Prop :=
  ∀ fd since, sinceAccept log = some (fd, since) → fd ≠ -1 →
    since.countP (handsOver fdOf fd) = 1 ∨ .close fd ∈ since

/-- At every call of `accept4` the descriptor of the call before it is settled. -/
def NoConnectionDropped (fdOf : C → Int) (log : List (Action C)) : Prop :=
  ∀ before client_fd after, log = before ++ .accept4 client_fd :: after → Settled fdOf before

/-- What an accept loop keeps between its calls. -/
structure Loop (C : Type) where
  errno : Errno
  client_fd : Int := -1
  log : List (Action C) := []
  deriving DecidableEq, Repr

/-- `client_fd = accept4(..)`. -/
def Loop.accept4 (loop : Loop C) : CallResult Nat → Loop C
  | .ok fd => { loop with client_fd := fd, log := loop.log ++ [.accept4 fd] }
  | .error errno => ⟨errno, -1, loop.log ++ [.accept4 (-1)]⟩

/-- `_threadpool.add_task(..)`. -/
def Loop.addTask (loop : Loop C) (obj : C) : Loop C :=
  { loop with log := loop.log ++ [.addTask obj] }

/-- A connection goes on where the call has given a descriptor and `errno` is not `EAGAIN`. -/
theorem Loop.accept4_error_not_taken (loop : Loop C) (errno : Errno) :
    ¬ ((loop.accept4 (.error errno)).client_fd ≠ -1 ∧
      (loop.accept4 (.error errno)).errno ≠ .EAGAIN) :=
  fun h => h.1 rfl

theorem Loop.accept4_ok_taken_iff (loop : Loop C) (fd : Nat) :
    (loop.accept4 (.ok fd)).client_fd ≠ -1 ∧ (loop.accept4 (.ok fd)).errno ≠ .EAGAIN ↔
      loop.errno ≠ .EAGAIN := by
  have hfd : (fd : Int) ≠ -1 := by omega
  exact and_iff_right hfd

/-- The object of the call of `add_task` between two records. -/
def addedTask (before after : List (Action C)) : Option C :=
  match after.drop before.length with
  | [.addTask obj] => some obj
  | _ => none

theorem addedTask_same (log : List (Action C)) : addedTask log log = none := by
  unfold addedTask
  rw [List.drop_length]

theorem addedTask_accept4 (log : List (Action C)) (fd : Int) :
    addedTask log (log ++ [.accept4 fd]) = none := by
  unfold addedTask
  rw [List.drop_left]

theorem addedTask_addTask (log : List (Action C)) (obj : C) :
    addedTask log (log ++ [.addTask obj]) = some obj := by
  unfold addedTask
  rw [List.drop_left]

variable {fdOf : C → Int} {log : List (Action C)}

theorem sinceAccept_concat (log : List (Action C)) (action : Action C) :
    sinceAccept (log ++ [action]) = note (sinceAccept log) action := by
  rw [sinceAccept, List.foldl_append]
  rfl

theorem settled_nil : Settled fdOf [] := by
  intro fd since h
  cases h

theorem settled_accept_error (log : List (Action C)) : Settled fdOf (log ++ [.accept4 (-1)]) := by
  intro fd since h hne
  rw [sinceAccept_concat] at h
  cases h
  exact absurd rfl hne

/-- A descriptor that is handed over at once is settled. -/
theorem settled_addTask (log : List (Action C)) (obj : C) :
    Settled fdOf (log ++ [.accept4 (fdOf obj)] ++ [.addTask obj]) := by
  intro fd since h _
  rw [sinceAccept_concat, sinceAccept_concat] at h
  cases h
  refine .inl ?_
  simp [handsOver]

theorem noConnectionDropped_nil : NoConnectionDropped fdOf [] := by
  intro before client_fd after h
  cases List.append_ne_nil_of_right_ne_nil _ (List.cons_ne_nil _ _) h.symm

/-- Only a call of `accept4` asks for what is settled. -/
theorem NoConnectionDropped.concat (h : NoConnectionDropped fdOf log) {action : Action C}
    (ha : ∀ client_fd, action = .accept4 client_fd → Settled fdOf log) :
    NoConnectionDropped fdOf (log ++ [action]) := by
  intro before client_fd after he
  rcases List.eq_nil_or_concat after with rfl | ⟨after, last, rfl⟩
  · obtain ⟨rfl, hl⟩ := List.append_inj' he rfl
    exact ha client_fd (List.singleton_inj.mp hl)
  · rw [List.concat_eq_append, ← List.cons_append, ← List.append_assoc] at he
    exact h before client_fd after (List.append_inj' he rfl).1

end Record

end SimpleServ.Server
