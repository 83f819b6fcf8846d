import Mathlib.Data.List.Dedup
import Krishiv.Lib.KVMap

/-!
# Programs on a store whose calls can fail

A program reads and writes the files of a store call by call. Each call may do its work, be refused,
do its work and still report an error, or never happen because the process stops first; which of the
four it is comes from a script, so that a result for every script is a result for every pattern of
failures and every moment at which the process stops.

Two notions carry the proofs about such programs. A program is *read-only* (`ReadOnly`) if it leaves
the files alone and its answer is the one of an undisturbed run unless a call failed. A program works
*within* a set of paths (`Within`) if every other path reads the same afterwards, whatever the script.
Both are closed under sequencing.
-/

/-- What becomes of one call. -/
inductive CallOutcome where
  | done
  /-- Nothing happens and the caller gets an error. -/
  | refused (message : String)
  /-- The call takes effect and the caller gets an error all the same. -/
  | late (message : String)
  /-- The process stops before the call. -/
  | stop
  deriving DecidableEq, Repr

/-- How a program can end without a result. -/
inductive Halt (ε : Type) where
  | stopped
  | failed (error : ε)
  deriving DecidableEq, Repr

/-- Error types in which a backend can report its own failures. -/
class BackendError (ε : Type) where
  backend : String → ε

/-- The files and the fate of the calls still to come; a call past the end of the script is done. -/
structure Backend (P B : Type) where
  files : KVMap P B
  script : List CallOutcome

/-- Programs on the files of a backend. -/
def StoreM (P B ε α : Type) := Backend P B → Except (Halt ε) α × Backend P B

namespace StoreM

open List AList

variable {P B ε α β : Type}

instance : Monad (StoreM P B ε) where
  pure a := fun s => (.ok a, s)
  bind m f := fun s =>
    match m s with
    | (.ok a, s') => f a s'
    | (.error h, s') => (.error h, s')

def throw (e : ε) : StoreM P B ε α := fun s => (.error (.failed e), s)

def ofExcept : Except ε α → StoreM P B ε α
  | .ok a => pure a
  | .error e => throw e

/-- Run `h` on the error of `m`. Nothing runs after the process has stopped. -/
def handle (m : StoreM P B ε α) (h : ε → StoreM P B ε α) : StoreM P B ε α := fun s =>
  match m s with
  | (.error (.failed e), s') => h e s'
  | r => r

/-- The error of `m` as a value. -/
def attempt (m : StoreM P B ε α) : StoreM P B ε (Except ε α) := fun s =>
  match m s with
  | (.ok a, s') => (.ok (.ok a), s')
  | (.error (.failed e), s') => (.ok (.error e), s')
  | (.error .stopped, s') => (.error .stopped, s')

/-- Report errors in another type. -/
def mapError {ε' : Type} (g : ε → ε') (m : StoreM P B ε α) : StoreM P B ε' α := fun s =>
  match m s with
  | (.ok a, s') => (.ok a, s')
  | (.error .stopped, s') => (.error .stopped, s')
  | (.error (.failed e), s') => (.error (.failed (g e)), s')

/-- The files that a run leaves which does not end with an answer. -/
def filesOnFailure (m : StoreM P B ε α) (s : Backend P B) : Option (KVMap P B) :=
  match m s with
  | (.ok _, _) => none
  | (.error _, s') => some s'.files

/-- The answer of a run in which no call fails. -/
def eval (m : StoreM P B ε α) (files : KVMap P B) : Except (Halt ε) α := (m ⟨files, []⟩).1

section Calls

variable [BackendError ε]

/-- One call: `work` on the files, answered by what the files hold when it is made. -/
def call (work : KVMap P B → KVMap P B) (answer : KVMap P B → α) : StoreM P B ε α := fun s =>
  match s.script with
  | [] => (.ok (answer s.files), ⟨work s.files, []⟩)
  | .done :: rest => (.ok (answer s.files), ⟨work s.files, rest⟩)
  | .refused m :: rest => (.error (.failed (BackendError.backend m)), ⟨s.files, rest⟩)
  | .late m :: rest => (.error (.failed (BackendError.backend m)), ⟨work s.files, rest⟩)
  | .stop :: rest => (.error .stopped, ⟨s.files, rest⟩)

variable [DecidableEq P]

def read (p : P) : StoreM P B ε (Option B) := call id fun files => files.lookup p

def write (p : P) (b : B) : StoreM P B ε Unit := call (fun files => files.insert p b) fun _ => ()

def remove (p : P) : StoreM P B ε Unit := call (fun files => files.erase p) fun _ => ()

/-- The names that `name` gives to the stored paths, each once. -/
def list {N : Type} [DecidableEq N] (name : P → Option N) : StoreM P B ε (List N) :=
  call id fun files => (files.keys.filterMap name).dedup

end Calls

/-! ## Running programs -/

@[simp] lemma pure_apply (a : α) (s : Backend P B) : (pure a : StoreM P B ε α) s = (.ok a, s) := rfl

@[simp] lemma throw_apply (e : ε) (s : Backend P B) : (throw e : StoreM P B ε α) s = (.error (.failed e), s) := rfl

lemma bind_apply (m : StoreM P B ε α) (f : α → StoreM P B ε β) (s : Backend P B) : (m >>= f) s = match m s with
      | (.ok a, s') => f a s'
      | (.error h, s') => (.error h, s') := rfl

variable {m : StoreM P B ε α} {s s' : Backend P B} {f : α → StoreM P B ε β} {a : α}

lemma bind_ok (h : m s = (.ok a, s')) : (m >>= f) s = f a s' := by
  rw [bind_apply, h]

lemma bind_error {e : Halt ε} (h : m s = (.error e, s')) : (m >>= f) s = (.error e, s') := by
  rw [bind_apply, h]

variable {γ : Type}

lemma bind_assoc (m : StoreM P B ε α) (f : α → StoreM P B ε β) (g : β → StoreM P B ε γ) :
    (m >>= f) >>= g = m >>= fun a => f a >>= g := by
  funext s
  simp only [bind_apply]
  rcases m s with ⟨r, s'⟩
  cases r <;> rfl

/-- A sequence returns exactly if both its parts do. -/
lemma bind_eq_ok {b : β} : (m >>= f) s = (.ok b, s') ↔ ∃ a s₁, m s = (.ok a, s₁) ∧ f a s₁ = (.ok b, s') := by
  rw [bind_apply]
  rcases m s with ⟨r, s₁⟩
  cases r with
  | error h | ok a => simp

lemma handle_apply (m : StoreM P B ε α) (h : ε → StoreM P B ε α) (s : Backend P B) : handle m h s = match m s with
      | (.error (.failed e), s') => h e s'
      | r => r := rfl

lemma attempt_eq_ok : attempt m s = (.ok (.ok a), s') ↔ m s = (.ok a, s') := by
  unfold attempt
  rcases m s with ⟨(_ | e) | b, s₁⟩ <;> simp

lemma filesOnFailure_of_error {h : Halt ε} (hrun : m s = (.error h, s')) : m.filesOnFailure s = some s'.files := by
  rw [filesOnFailure, hrun]

variable {files : KVMap P B}

lemma files_of_filesOnFailure (h : m.filesOnFailure s = some files) : (m s).2.files = files := by
  unfold filesOnFailure at h
  rcases hrun : m s with ⟨r, s'⟩
  rw [hrun] at h
  cases r with
  | ok a => cases h
  | error e => exact Option.some.inj h

variable {ε' : Type}

lemma mapError_error {g : ε → ε'} {h : Halt ε} (hrun : m s = (.error h, s')) :
    ∃ h', m.mapError g s = (.error h', s') := by
  unfold mapError
  rw [hrun]
  cases h with
  | stopped | failed e => exact ⟨_, rfl⟩

lemma mapError_eq_ok {g : ε → ε'} : m.mapError g s = (.ok a, s') ↔ m s = (.ok a, s') := by
  unfold mapError
  rcases m s with ⟨(_ | e) | b, s₁⟩ <;> simp

/-- The last run of a loop can be taken off. -/
lemma forM_concat (l : List γ) (x : γ) (g : γ → StoreM P B ε Unit) :
    (l ++ [x]).forM g = l.forM g >>= fun _ => g x := by
  induction l with
  | nil =>
    funext s
    change (g x >>= fun _ => Pure.pure ()) s = g x s
    rw [bind_apply]
    rcases g x s with ⟨_ | u, s'⟩ <;> rfl
  | cons y l ih =>
    change (g y >>= fun _ => (l ++ [x]).forM g) = (g y >>= fun _ => l.forM g) >>= fun _ => g x
    rw [ih, bind_assoc]

@[simp] lemma eval_pure (a : α) (files : KVMap P B) : eval (pure a : StoreM P B ε α) files = .ok a := rfl

@[simp] lemma eval_throw (e : ε) (files : KVMap P B) :
    eval (throw e : StoreM P B ε α) files = .error (.failed e) := rfl

section

variable (hquiet : ∀ files, (m ⟨files, []⟩).2 = ⟨files, []⟩)

include hquiet

/-- What an undisturbed run of a sequence answers. -/
lemma eval_bind_of_quiet (files : KVMap P B) : (m >>= f).eval files = match m.eval files with
      | .ok a => (f a).eval files
      | .error h => .error h := by
  have hq := hquiet files
  simp only [eval, bind_apply]
  rcases hr : m ⟨files, []⟩ with ⟨r, s'⟩
  rw [hr] at hq
  cases r with
  | error h => rfl
  | ok a => simp only; rw [show s' = ⟨files, []⟩ from hq]

lemma eval_bind_eq_ok {files : KVMap P B} {b : β} :
    (m >>= f).eval files = .ok b ↔ ∃ a, m.eval files = .ok a ∧ (f a).eval files = .ok b := by
  rw [eval_bind_of_quiet hquiet]
  cases m.eval files with
  | error h | ok a => simp

/-- What an undisturbed run of a program with a handler answers. -/
lemma eval_handle_of_quiet {h : ε → StoreM P B ε α} (files : KVMap P B) :
    (m.handle h).eval files = match m.eval files with
      | .error (.failed e) => (h e).eval files
      | r => r := by
  have hq := hquiet files
  simp only [eval, handle_apply]
  rcases hr : m ⟨files, []⟩ with ⟨r, s'⟩
  rw [hr] at hq
  have hs : s' = ⟨files, []⟩ := hq
  rcases r with (_ | e) | a
  · rfl
  · simp [hs]
  · rfl

end

/-! ## Programs that can be followed by a fault -/

/-- An undisturbed run comes to an end. With enough calls done, the program answers as in that run and
leaves the files and the rest of the script alone; so a script can place a fault right behind it. -/
structure Steady (m : StoreM P B ε α) : Prop where
  ends : ∀ files, m.eval files ≠ .error .stopped
  calls : ∀ files, ∃ n, ∀ rest, m ⟨files, List.replicate n .done ++ rest⟩ = (m.eval files, ⟨files, rest⟩)

variable {h : ε → StoreM P B ε α}

namespace Steady

lemma pure (a : α) : Steady (Pure.pure a : StoreM P B ε α) where
  ends _ h := by cases h
  calls _ := ⟨0, fun _ => rfl⟩

lemma throw (e : ε) : Steady (throw e : StoreM P B ε α) where
  ends _ h := by cases h
  calls _ := ⟨0, fun _ => rfl⟩

lemma call [BackendError ε] (answer : KVMap P B → α) : Steady (call id answer : StoreM P B ε α) where
  ends _ h := by cases h
  calls _ := ⟨1, fun _ => rfl⟩

section

variable (hm : Steady m) (hquiet : ∀ files, (m ⟨files, []⟩).2 = ⟨files, []⟩)

include hm hquiet

/-- The calls of a sequence are the calls of its parts. -/
lemma bind (hf : ∀ a, Steady (f a)) : Steady (m >>= f) where
  ends files := by
    have hend := hm.ends files
    rw [eval_bind_of_quiet hquiet]
    cases hans : m.eval files with
    | error h =>
      intro hstop
      cases hstop
      exact hend hans
    | ok a => exact (hf a).ends files
  calls files := by
    obtain ⟨n, hn⟩ := hm.calls files
    have heval := eval_bind_of_quiet (f := f) hquiet files
    cases hans : m.eval files with
    | error h =>
      refine ⟨n, fun rest => ?_⟩
      rw [bind_apply, hn, heval, hans]
    | ok a =>
      obtain ⟨k, hk⟩ := (hf a).calls files
      refine ⟨n + k, fun rest => ?_⟩
      rw [bind_apply, replicate_add, append_assoc, hn, heval, hans]
      exact hk rest

lemma handle (hh : ∀ e, Steady (h e)) : Steady (m.handle h) where
  ends files := by
    have hend := hm.ends files
    rw [eval_handle_of_quiet hquiet]
    rcases hans : m.eval files with (_ | e) | a
    · exact absurd hans hend
    · exact (hh e).ends files
    · simp
  calls files := by
    obtain ⟨n, hn⟩ := hm.calls files
    have heval := eval_handle_of_quiet (h := h) hquiet files
    rcases hans : m.eval files with (_ | e) | a
    · exact absurd hans (hm.ends files)
    · obtain ⟨k, hk⟩ := (hh e).calls files
      refine ⟨n + k, fun rest => ?_⟩
      rw [handle_apply, replicate_add, append_assoc, hn, heval, hans]
      exact hk rest
    · refine ⟨n, fun rest => ?_⟩
      rw [handle_apply, hn, heval, hans]

end

lemma mapError {g : ε → ε'} (hm : Steady m) : Steady (m.mapError g) where
  ends files := by
    have hend := hm.ends files
    simp only [eval, StoreM.mapError] at hend ⊢
    rcases hr : m ⟨files, []⟩ with ⟨(_ | e) | a, s'⟩
    · rw [hr] at hend
      exact absurd rfl hend
    · simp
    · simp
  calls files := by
    obtain ⟨n, hn⟩ := hm.calls files
    refine ⟨n, fun rest => ?_⟩
    simp only [StoreM.mapError, eval, hn]
    rcases m ⟨files, []⟩ with ⟨(_ | e) | a, s'⟩ <;> rfl

end Steady

/-! ## Invariants of the files -/

/-- `Q` holds of the files afterwards if it held before, whatever happens to the calls. -/
def Keeps (Q : KVMap P B → Prop) (m : StoreM P B ε α) : Prop := ∀ s, Q s.files → Q (m s).2.files

namespace Keeps

variable {Q : KVMap P B → Prop}

lemma pure (a : α) : Keeps Q (Pure.pure a : StoreM P B ε α) := fun _ h => h

lemma throw (e : ε) : Keeps Q (throw e : StoreM P B ε α) := fun _ h => h

/-- The second program need only keep `Q` for the values that the first one returns. -/
lemma bind_of (hm : Keeps Q m) (hf : ∀ s a s', m s = (.ok a, s') → Keeps Q (f a)) : Keeps Q (m >>= f) := by
  intro s hs
  have h := hm s hs
  rw [bind_apply]
  rcases hr : m s with ⟨r, s'⟩
  rw [hr] at h
  cases r with
  | error e => exact h
  | ok a => exact hf s a s' hr s' h

lemma bind (hm : Keeps Q m) (hf : ∀ a, Keeps Q (f a)) : Keeps Q (m >>= f) := hm.bind_of fun _ a _ _ => hf a

lemma handle (hm : Keeps Q m) (hh : ∀ e, Keeps Q (h e)) : Keeps Q (m.handle h) := by
  intro s hs
  have hq := hm s hs
  rw [handle_apply]
  rcases hr : m s with ⟨r, s'⟩
  rw [hr] at hq
  rcases r with (_ | e) | a
  · exact hq
  · exact hh e s' hq
  · exact hq

lemma forM {l : List γ} {g : γ → StoreM P B ε Unit} (h : ∀ x ∈ l, Keeps Q (g x)) : Keeps Q (l.forM g) := by
  induction l with
  | nil => exact .pure ()
  | cons x l ih => exact (h x (by simp)).bind fun _ => ih fun y hy => h y (mem_cons_of_mem x hy)

lemma mapError {g : ε → ε'} (hm : Keeps Q m) : Keeps Q (m.mapError g) := by
  intro s hs
  have hq := hm s hs
  unfold StoreM.mapError
  rcases hr : m s with ⟨(_ | e) | a, s'⟩ <;> rw [hr] at hq <;> exact hq

variable [BackendError ε]

/-- One call keeps what its effect keeps. -/
lemma call {work : KVMap P B → KVMap P B} {answer : KVMap P B → α} (h : ∀ files, Q files → Q (work files)) :
    Keeps Q (call work answer : StoreM P B ε α) := by
  rintro ⟨files, script⟩ hq
  rcases script with _ | ⟨c, rest⟩
  · exact h files hq
  cases c with
  | done => exact h files hq
  | refused msg => exact hq
  | late msg => exact h files hq
  | stop => exact hq

end Keeps

/-! ## Programs that only look -/

/-- The files stay as they are. Such a program may swallow faults and report them in its own words. -/
structure Looks (m : StoreM P B ε α) : Prop where
  files : ∀ s, (m s).2.files = s.files
  quiet : ∀ files, (m ⟨files, []⟩).2 = ⟨files, []⟩
  steady : Steady m

namespace Looks

lemma pure (a : α) : Looks (Pure.pure a : StoreM P B ε α) where
  files _ := rfl
  quiet _ := rfl
  steady := .pure a

lemma throw (e : ε) : Looks (throw e : StoreM P B ε α) where
  files _ := rfl
  quiet _ := rfl
  steady := .throw e

lemma keeps {Q : KVMap P B → Prop} (hm : Looks m) : Keeps Q m := fun s hs => by rwa [hm.files s]

lemma bind (hm : Looks m) (hf : ∀ a, Looks (f a)) : Looks (m >>= f) where
  files s := hm.keeps.bind (Q := (· = s.files)) (fun a => (hf a).keeps) s rfl
  quiet files := by
    have hq := hm.quiet files
    rw [bind_apply]
    rcases hr : m ⟨files, []⟩ with ⟨r, s'⟩
    rw [hr] at hq
    have hs : s' = ⟨files, []⟩ := hq
    cases r with
    | error e => exact hq
    | ok a => rw [hs]; exact (hf a).quiet files
  steady := hm.steady.bind hm.quiet fun a => (hf a).steady

lemma handle (hm : Looks m) (hh : ∀ e, Looks (h e)) : Looks (m.handle h) where
  files s := hm.keeps.handle (Q := (· = s.files)) (fun e => (hh e).keeps) s rfl
  quiet files := by
    have hq := hm.quiet files
    rw [handle_apply]
    rcases hr : m ⟨files, []⟩ with ⟨r, s'⟩
    rw [hr] at hq
    have hs : s' = ⟨files, []⟩ := hq
    rcases r with (_ | e) | a
    · exact hs
    · rw [hs]; exact (hh e).quiet files
    · exact hs
  steady := hm.steady.handle hm.quiet fun e => (hh e).steady

lemma mapError {g : ε → ε'} (hm : Looks m) : Looks (m.mapError g) where
  files s := hm.keeps.mapError (Q := (· = s.files)) s rfl
  quiet files := by
    have h := hm.quiet files
    unfold StoreM.mapError
    rcases hr : m ⟨files, []⟩ with ⟨(_ | e) | a, s'⟩ <;> rw [hr] at h <;> exact h
  steady := hm.steady.mapError

end Looks

/-! ## Read-only programs -/

variable {p : P}

section ReadOnly

variable [BackendError ε]

/-- The run ended because a call failed or the process stopped. -/
def Faulted (r : Except (Halt ε) α) : Prop :=
  r = .error .stopped ∨ ∃ m, r = .error (.failed (BackendError.backend m))

/-- The files stay as they are, and unless a call fails the answer is that of an undisturbed run. What is
left of the script is an end of it. -/
structure ReadOnly (m : StoreM P B ε α) : Prop extends Looks m where
  script : ∀ s, (m s).2.script <:+ s.script
  answer : ∀ s, (m s).1 = m.eval s.files ∨ Faulted (m s).1

namespace ReadOnly

lemma pure (a : α) : ReadOnly (Pure.pure a : StoreM P B ε α) where
  toLooks := .pure a
  script _ := suffix_rfl
  answer _ := .inl rfl

lemma throw (e : ε) : ReadOnly (throw e : StoreM P B ε α) where
  toLooks := .throw e
  script _ := suffix_rfl
  answer _ := .inl rfl

lemma ofExcept (x : Except ε α) : ReadOnly (ofExcept x : StoreM P B ε α) := by
  cases x with
  | error e => exact .throw e
  | ok a => exact .pure a

lemma call (answer : KVMap P B → α) : ReadOnly (call id answer : StoreM P B ε α) where
  files s := Keeps.call (Q := (· = s.files)) (fun _ h => h) s rfl
  script s := by
    obtain ⟨files, script⟩ := s
    rcases script with _ | ⟨c, rest⟩
    · exact suffix_rfl
    · cases c <;> exact suffix_cons _ _
  quiet _ := rfl
  steady := .call answer
  answer s := by
    obtain ⟨files, script⟩ := s
    rcases script with _ | ⟨c, rest⟩
    · exact .inl rfl
    cases c with
    | done => exact .inl rfl
    | refused m | late m => exact .inr (.inr ⟨m, rfl⟩)
    | stop => exact .inr (.inl rfl)

lemma read [DecidableEq P] (p : P) : ReadOnly (read p : StoreM P B ε (Option B)) := call _

lemma list {N : Type} [DecidableEq N] (name : P → Option N) : ReadOnly (list name : StoreM P B ε (List N)) := call _

/-- What an undisturbed run of a sequence answers. -/
lemma eval_bind (hm : ReadOnly m) (files : KVMap P B) : (m >>= f).eval files = match m.eval files with
      | .ok a => (f a).eval files
      | .error h => .error h :=
  eval_bind_of_quiet hm.quiet files

/-- Both parts of a sequence that answers have answered. -/
lemma eval_bind_ok (hm : ReadOnly m) {b : β} :
    (m >>= f).eval files = .ok b ↔ ∃ a, m.eval files = .ok a ∧ (f a).eval files = .ok b :=
  eval_bind_eq_ok hm.quiet

omit [BackendError ε] in
lemma eval_ofExcept_bind_ok {x : Except ε α} {b : β} :
    (StoreM.ofExcept x >>= f).eval files = .ok b ↔ ∃ a, x = .ok a ∧ (f a).eval files = .ok b := by
  cases x with
  | error e => exact iff_of_false nofun nofun
  | ok a =>
    constructor
    · exact fun h => ⟨a, rfl, h⟩
    · rintro ⟨_, ⟨⟩, h⟩
      exact h

omit [BackendError ε] in
lemma eval_ok_bind (a : α) (files : KVMap P B) : (StoreM.ofExcept (.ok a) >>= f).eval files = (f a).eval files := rfl

lemma eval_read_bind [DecidableEq P] {g : Option B → StoreM P B ε β} (p : P) (files : KVMap P B) :
    (StoreM.read p >>= g).eval files = (g (files.lookup p)).eval files :=
  (read p).eval_bind files

lemma bind (hm : ReadOnly m) (hf : ∀ a, ReadOnly (f a)) : ReadOnly (m >>= f) where
  toLooks := hm.toLooks.bind fun a => (hf a).toLooks
  script s := by
    have h := hm.script s
    simp only [bind_apply]
    rcases hr : m s with ⟨r, s'⟩
    rw [hr] at h
    cases r with
    | error e => exact h
    | ok a => exact ((hf a).script s').trans h
  answer s := by
    have hfiles := hm.files s
    have hans := hm.answer s
    rw [eval_bind hm, bind_apply]
    rcases hr : m s with ⟨r, s'⟩
    rw [hr] at hfiles hans
    simp only at hfiles hans
    rcases hans with hans | hans
    · rw [← hans]
      cases r with
      | error e => exact .inl rfl
      | ok a => simpa only [hfiles] using (hf a).answer s'
    · -- the first program was cut short, and so is the sequence
      rcases hans with rfl | ⟨msg, rfl⟩
      · exact .inr (.inl rfl)
      · exact .inr (.inr ⟨msg, rfl⟩)

lemma map (g : α → β) (hm : ReadOnly m) : ReadOnly (g <$> m) := hm.bind fun a => .pure (g a)

lemma eval_map (g : α → β) (hm : ReadOnly m) (files : KVMap P B) : (g <$> m).eval files = (m.eval files).map g := by
  have hbind := hm.eval_bind (f := fun a => Pure.pure (g a)) files
  refine Eq.trans hbind ?_
  cases m.eval files <;> rfl

/-- A handler that passes the backend's own failures on keeps a program read-only. -/
lemma handle (hm : ReadOnly m) (hh : ∀ e, ReadOnly (h e))
    (hpass : ∀ msg, h (BackendError.backend msg) = StoreM.throw (BackendError.backend msg)) :
    ReadOnly (m.handle h) where
  toLooks := hm.toLooks.handle fun e => (hh e).toLooks
  script s := by
    have hs := hm.script s
    rw [handle_apply]
    rcases hr : m s with ⟨r, s'⟩
    rw [hr] at hs
    rcases r with (_ | e) | a
    · exact hs
    · exact ((hh e).script s').trans hs
    · exact hs
  answer s := by
    have hfiles := hm.files s
    have hans := hm.answer s
    have hq := hm.quiet s.files
    have heval : m.eval s.files = (m ⟨s.files, []⟩).1 := rfl
    rcases hr : m s with ⟨r, s'⟩
    rcases hr' : m ⟨s.files, []⟩ with ⟨r', s''⟩
    rw [hr] at hfiles hans
    rw [hr'] at hq heval
    rw [heval] at hans
    have hs : s'' = ⟨s.files, []⟩ := hq
    simp only at hfiles hans
    simp only [eval, handle_apply, hr, hr', hs]
    rcases hans with rfl | rfl | ⟨msg, rfl⟩
    · rcases r with (_ | e) | a
      · exact .inl rfl
      · simpa only [eval, hfiles] using (hh e).answer s'
      · exact .inl rfl
    · exact .inr (.inl rfl)
    · simp only [hpass]
      exact .inr (.inr ⟨msg, rfl⟩)

/-- An answer that no fault produced is the answer of an undisturbed run. -/
lemma eval_of_ok (hm : ReadOnly m) (h : (m s).1 = .ok a) : m.eval s.files = .ok a := by
  rcases hm.answer s with hans | hans | ⟨msg, hans⟩
  · rw [← hans, h]
  · rw [h] at hans; cases hans
  · rw [h] at hans; cases hans

/-- What an undisturbed run of a program with a handler answers. -/
lemma eval_handle (hm : ReadOnly m) (files : KVMap P B) : (m.handle h).eval files = match m.eval files with
      | .error (.failed e) => (h e).eval files
      | r => r :=
  eval_handle_of_quiet hm.quiet files

end ReadOnly

/-- A read-only program whose answer depends on the paths in `S` only, and which raises no errors of its
own but those in `E`. -/
structure Reads [DecidableEq P] (S : P → Prop) (E : ε → Prop) (m : StoreM P B ε α) : Prop
    extends ReadOnly m where
  depends : ∀ files files' : KVMap P B,
    (∀ p, S p → files.lookup p = files'.lookup p) → m.eval files = m.eval files'
  raises : ∀ files e, m.eval files = .error (.failed e) → E e

namespace Reads

variable [DecidableEq P] {S : P → Prop} {E : ε → Prop}

lemma pure (a : α) : Reads S E (Pure.pure a : StoreM P B ε α) where
  toReadOnly := .pure a
  depends _ _ _ := rfl
  raises _ _ h := by cases h

lemma throw {e : ε} (he : E e) : Reads S E (throw e : StoreM P B ε α) where
  toReadOnly := .throw e
  depends _ _ _ := rfl
  raises _ _ h := by cases h; exact he

lemma ofExcept {x : Except ε α} (hx : ∀ e, x = .error e → E e) : Reads S E (ofExcept x : StoreM P B ε α) := by
  cases x with
  | error e => exact .throw (hx e rfl)
  | ok a => exact .pure a

lemma read (hp : S p) : Reads S E (read p : StoreM P B ε (Option B)) where
  toReadOnly := .read p
  depends _ _ h := congrArg Except.ok (h p hp)
  raises _ _ h := by cases h

lemma bind (hm : Reads S E m) (hf : ∀ a, Reads S E (f a)) : Reads S E (m >>= f) where
  toReadOnly := hm.toReadOnly.bind fun a => (hf a).toReadOnly
  depends files files' h := by
    rw [hm.eval_bind, hm.eval_bind, hm.depends files files' h]
    cases m.eval files' with
    | error e => rfl
    | ok a => exact (hf a).depends files files' h
  raises files e h := by
    rw [hm.eval_bind] at h
    cases hr : m.eval files with
    | error e' =>
      rw [hr] at h
      cases h
      exact hm.raises files e hr
    | ok a =>
      rw [hr] at h
      exact (hf a).raises files e h

end Reads

end ReadOnly

/-! ## Programs whose answers can be trusted -/

/-- A program that only looks and whose answer, if there is one, is that of an undisturbed run. Unlike a
read-only program this one may report faults in its own words. -/
structure Observes (m : StoreM P B ε α) : Prop extends Looks m where
  genuine : ∀ s a, (m s).1 = .ok a → m.eval s.files = .ok a

namespace Observes

lemma pure (a : α) : Observes (Pure.pure a : StoreM P B ε α) where
  toLooks := .pure a
  genuine _ _ h := h

lemma throw (e : ε) : Observes (throw e : StoreM P B ε α) where
  toLooks := .throw e
  genuine _ _ h := h

lemma ofExcept (x : Except ε α) : Observes (ofExcept x : StoreM P B ε α) := by
  cases x with
  | error e => exact .throw e
  | ok a => exact .pure a

lemma bind (hm : Observes m) (hf : ∀ a, Observes (f a)) : Observes (m >>= f) where
  toLooks := hm.toLooks.bind fun a => (hf a).toLooks
  genuine s b h := by
    have hfiles := hm.files s
    have hgen := hm.genuine s
    rw [bind_apply] at h
    rw [eval_bind_of_quiet hm.quiet]
    rcases hr : m s with ⟨r, s'⟩
    rw [hr] at h hfiles hgen
    cases r with
    | error e => cases h
    | ok a =>
      rw [hgen a rfl]
      have hs : s'.files = s.files := hfiles
      rw [← hs]
      exact (hf a).genuine s' b h

/-- A read-only program that reports its errors in another type. -/
lemma mapError [BackendError ε] {g : ε → ε'} (hm : ReadOnly m) : Observes (m.mapError g) where
  toLooks := hm.toLooks.mapError
  genuine s a h := by
    have hok : (m s).1 = .ok a := by
      unfold StoreM.mapError at h
      rcases hr : m s with ⟨(_ | e) | b, s'⟩ <;> rw [hr] at h <;> cases h
      rfl
    have heval : (m ⟨s.files, []⟩).1 = .ok a := hm.eval_of_ok hok
    simp only [eval, StoreM.mapError]
    rcases hr : m ⟨s.files, []⟩ with ⟨(_ | e) | b, s'⟩ <;> rw [hr] at heval <;> cases heval
    rfl

end Observes

/-! ## Frames -/

/-- Paths outside `S` read the same afterwards, whatever happens to the calls. -/
def Within (S : P → Prop) [DecidableEq P] (m : StoreM P B ε α) : Prop :=
  ∀ s p, ¬ S p → (m s).2.files.lookup p = s.files.lookup p

namespace Within

variable [DecidableEq P] {S T : P → Prop}

lemma mono (hm : Within S m) (h : ∀ p, S p → T p) : Within T m := fun s p hp => hm s p fun hs => hp (h p hs)

lemma pure (a : α) : Within S (Pure.pure a : StoreM P B ε α) := fun _ _ _ => rfl

lemma throw (e : ε) : Within S (throw e : StoreM P B ε α) := fun _ _ _ => rfl

lemma ofExcept (x : Except ε α) : Within S (ofExcept x : StoreM P B ε α) := by
  cases x with
  | error e => exact .throw e
  | ok a => exact .pure a

lemma keeps {v : Option B} (hm : Within S m) (hp : ¬ S p) : Keeps (·.lookup p = v) m :=
  fun s hs => (hm s p hp).trans hs

/-- The second program need only stay within `S` for the values that the first one returns. -/
lemma bind_of (hm : Within S m) (hf : ∀ s a s', m s = (.ok a, s') → Within S (f a)) :
    Within S (m >>= f) := fun s _ hp =>
  (hm.keeps hp).bind_of (fun s a s' hr => (hf s a s' hr).keeps hp) s rfl

lemma bind (hm : Within S m) (hf : ∀ a, Within S (f a)) : Within S (m >>= f) :=
  hm.bind_of fun _ a _ _ => hf a

lemma handle (hm : Within S m) (hh : ∀ e, Within S (h e)) : Within S (m.handle h) := fun s _ hp =>
  (hm.keeps hp).handle (fun e => (hh e).keeps hp) s rfl

lemma mapError {g : ε → ε'} (hm : Within S m) : Within S (m.mapError g) := fun s _ hp =>
  (hm.keeps hp).mapError s rfl

lemma forM {l : List γ} {g : γ → StoreM P B ε Unit} (h : ∀ x ∈ l, Within S (g x)) :
    Within S (l.forM g) := fun s _ hp =>
  Keeps.forM (fun x hx => (h x hx).keeps hp) s rfl

variable [BackendError ε]

lemma readOnly (hm : ReadOnly m) : Within S m := fun s p _ => by rw [hm.files s]

lemma write (b : B) (hp : S p) : Within S (write p b : StoreM P B ε Unit) := by
  intro s q hq
  have hne : q ≠ p := fun h => hq (h ▸ hp)
  exact Keeps.call (Q := (·.lookup q = s.files.lookup q)) (fun _ h => (lookup_insert_ne hne).trans h) s rfl

lemma remove (hp : S p) : Within S (remove p : StoreM P B ε Unit) := by
  intro s q hq
  have hne : q ≠ p := fun h => hq (h ▸ hp)
  exact Keeps.call (Q := (·.lookup q = s.files.lookup q)) (fun _ h => (lookup_erase_ne hne).trans h) s rfl

end Within

/-! ## Writes that were reported done -/

variable {l : List γ} {path : γ → P} {bytes : γ → B}

section Writes

variable [BackendError ε] [DecidableEq P] {s' : Backend P B}

lemma write_ok {b : B} {u : Unit} (h : (write p b : StoreM P B ε Unit) s = (.ok u, s')) :
    s'.files = s.files.insert p b := by
  obtain ⟨files, script⟩ := s
  rcases script with _ | ⟨c, rest⟩
  · cases h; rfl
  · cases c <;> cases h
    rfl

lemma forM_write_ok {u : Unit}
    (h : (l.forM fun x => (write (path x) (bytes x) : StoreM P B ε Unit)) s = (.ok u, s')) :
    s'.files = l.foldl (fun files x => files.insert (path x) (bytes x)) s.files := by
  induction l generalizing s with
  | nil => cases h; rfl
  | cons x l ih =>
    obtain ⟨_, s₁, hw, hrest⟩ := bind_eq_ok.mp h
    rw [ih hrest, write_ok hw]
    rfl

/-- Without faults all writes of a loop are done. -/
lemma forM_write_quiet (path : γ → P) (bytes : γ → B) (l : List γ) (files : KVMap P B) :
    ∃ files', (l.forM fun x => (write (path x) (bytes x) : StoreM P B ε Unit)) ⟨files, []⟩ =
      (.ok (), ⟨files', []⟩) := by
  induction l generalizing files with
  | nil => exact ⟨files, rfl⟩
  | cons x l ih =>
    obtain ⟨files', h⟩ := ih (files.insert (path x) (bytes x))
    exact ⟨files', bind_eq_ok.mpr ⟨_, _, rfl, h⟩⟩

/-- If some write of a loop changes its path, a fault can leave a path changed. -/
lemma forM_write_fault (path : γ → P) (bytes : γ → B) (h : ∃ x ∈ l, files.lookup (path x) ≠ some (bytes x)) :
    ∃ n e s, (l.forM fun x => (write (path x) (bytes x) : StoreM P B ε Unit))
        ⟨files, replicate n .done ++ [.late ""]⟩ = (.error e, s) ∧
      ∃ x ∈ l, s.files.lookup (path x) ≠ files.lookup (path x) := by
  induction l generalizing files with
  | nil =>
    obtain ⟨x, hx, -⟩ := h
    cases hx
  | cons x l ih =>
    by_cases hhead : files.lookup (path x) = some (bytes x)
    · -- the first write changes nothing, so the fault comes later
      have hsame : ∀ p, (files.insert (path x) (bytes x)).lookup p = files.lookup p := by
        intro p
        by_cases hp : p = path x
        · rw [hp, lookup_insert, hhead]
        · exact lookup_insert_ne hp
      obtain ⟨y, hy, hne⟩ := h
      have hy' : y ∈ l := by
        rcases mem_cons.mp hy with rfl | hy
        · exact absurd hhead hne
        · exact hy
      have hrest : ∃ y ∈ l, (files.insert (path x) (bytes x)).lookup (path y) ≠ some (bytes y) :=
        ⟨y, hy', by rwa [hsame]⟩
      obtain ⟨n, e, s, hrun, z, hz, hchanged⟩ := ih hrest
      refine ⟨n + 1, e, s, ?_, z, mem_cons_of_mem _ hz, by rwa [hsame] at hchanged⟩
      rw [replicate_succ, cons_append]
      exact hrun
    · refine ⟨0, _, _, rfl, x, mem_cons_self, ?_⟩
      have hafter : (files.insert (path x) (bytes x)).lookup (path x) = some (bytes x) := lookup_insert _
      intro heq
      exact hhead (heq.symm.trans hafter)

/-- Writes of what is there already. -/
lemma forM_write_same (h : ∀ x ∈ l, files.lookup (path x) = some (bytes x)) :
    Keeps (fun files' => ∀ p, files'.lookup p = files.lookup p)
      (l.forM fun x => (write (path x) (bytes x) : StoreM P B ε Unit)) := by
  refine Keeps.forM fun x hx => .call fun files' hfiles' p => ?_
  by_cases hp : p = path x
  · rw [hp, lookup_insert, h x hx]
  · rw [lookup_insert_ne hp]
    exact hfiles' p

omit [DecidableEq P] in
lemma list_ok {N : Type} [DecidableEq N] {name : P → Option N} {l : List N}
    (h : (list name : StoreM P B ε (List N)) s = (.ok l, s')) : ∀ n ∈ l, ∃ p, name p = some n := by
  have hl : l = (s.files.keys.filterMap name).dedup := by
    obtain ⟨files, script⟩ := s
    rcases script with _ | ⟨c, rest⟩
    · cases h; rfl
    · cases c <;> cases h
      rfl
  subst hl
  intro n hn
  obtain ⟨p, -, hp⟩ := mem_filterMap.mp (dedup_subset _ hn)
  exact ⟨p, hp⟩

end Writes

section Fold

variable [DecidableEq P]

/-- Writes elsewhere do not change a path. -/
lemma lookup_foldl_insert_of_ne (h : ∀ x ∈ l, path x ≠ p) :
    (l.foldl (fun files x => files.insert (path x) (bytes x)) files).lookup p = files.lookup p := by
  induction l generalizing files with
  | nil => rfl
  | cons x l ih =>
    rw [foldl_cons, ih fun y hy => h y (by simp [hy])]
    exact lookup_insert_ne (h x (by simp)).symm

/-- Where all writes to a path agree, the path holds what they wrote. -/
lemma lookup_foldl_insert_of_mem {x : γ} (hx : x ∈ l) (hsame : ∀ y ∈ l, path y = path x → bytes y = bytes x) :
    (l.foldl (fun files x => files.insert (path x) (bytes x)) files).lookup (path x) = some (bytes x) := by
  induction l generalizing files x with
  | nil => cases hx
  | cons y l ih =>
    rw [foldl_cons]
    by_cases hlater : ∃ z ∈ l, path z = path x
    · obtain ⟨z, hz, hpath⟩ := hlater
      have hbytes := hsame z (by simp [hz]) hpath
      rw [← hpath, ← hbytes]
      refine ih hz fun u hu hu' => ?_
      rw [hsame u (by simp [hu]) (hu'.trans hpath), hbytes]
    · -- the head is the last write to the path
      have hne : ∀ z ∈ l, path z ≠ path x := fun z hz heq => hlater ⟨z, hz, heq⟩
      rw [lookup_foldl_insert_of_ne hne]
      rcases mem_cons.mp hx with rfl | hx
      · exact lookup_insert _
      · exact absurd rfl (hne x hx)

end Fold

end StoreM
