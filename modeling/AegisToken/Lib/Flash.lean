/-
  Programs on a byte-addressed flash that can lose power at any byte.
  A program maps the flash it starts on to the operations it issues, in order, and its result.
  Reads are answered from the flash as the operations so far have left it.
  `cut n` keeps the first `n` bytes of a trace: whole operations, then a prefix of the one the
  power failed in. `Prog.after` is the flash once the program is through, `Prog.crash n` the
  flash when the power failed after `n` bytes.
  A `note` is an operation of no bytes. It marks an event that leaves no trace in the flash.
  A failing operation is a cut whose program goes on with an error, so it needs no case of its own.
-/
import Mathlib.Data.List.Basic
import Mathlib.Tactic.Linarith

namespace FlashProg

/-- The contents of the flash, by address. -/
abbrev Flash := Nat → UInt8

def blank : Flash := fun _ => 0xFF

/-- The `len` bytes from `off` on. -/
def read (f : Flash) (off len : Nat) : List UInt8 := (List.range len).map fun i => f (off + i)

/-- One operation on the flash, or an event to be recorded. -/
inductive Op (ν : Type) where
  | note (v : ν)
  | erase (off len : Nat)
  | write (off : Nat) (data : List UInt8)

variable {ν ε α β : Type}

/-- The number of bytes an operation changes one after the other. -/
def Op.size : Op ν → Nat
  | .note _ => 0
  | .erase _ len => len
  | .write _ data => data.length

/-- An operation that stopped after `n` bytes. -/
def Op.take (n : Nat) : Op ν → Op ν
  | .note v => .note v
  | .erase off len => .erase off (min n len)
  | .write off data => .write off (data.take n)

/-- The flash after an operation. -/
def Op.run (f : Flash) : Op ν → Flash
  | .note _ => f
  | .erase off len => fun a => if off ≤ a ∧ a < off + len then 0xFF else f a
  | .write off data => fun a => if off ≤ a then data.getD (a - off) (f a) else f a

/-- The addresses an operation may change lie in `[lo, hi)`. -/
def Op.Within (lo hi : Nat) : Op ν → Prop
  | .note _ => True
  | .erase off len => lo ≤ off ∧ off + len ≤ hi
  | .write off data => lo ≤ off ∧ off + data.length ≤ hi

def apply (f : Flash) (ops : List (Op ν)) : Flash := ops.foldl Op.run f

/-- The bytes a trace changes. -/
def size (ops : List (Op ν)) : Nat := (ops.map Op.size).sum

/-- The first `n` bytes of a trace. -/
def cut : Nat → List (Op ν) → List (Op ν)
  | _, [] => []
  | n, op :: ops => if op.size ≤ n then op :: cut (n - op.size) ops else [op.take n]

def notes (ops : List (Op ν)) : List ν :=
  ops.filterMap fun op => match op with
    | .note v => some v
    | _ => none

/-! ## Reading -/

@[simp] theorem length_read (f : Flash) (off len : Nat) : (read f off len).length = len := by
  simp [read]

@[simp] theorem getElem_read (f : Flash) (off len i : Nat) (h : i < (read f off len).length) :
    (read f off len)[i] = f (off + i) := by
  simp [read]

theorem read_congr {f g : Flash} {off len : Nat} (h : ∀ a, off ≤ a → a < off + len → f a = g a) :
    read f off len = read g off len := by
  apply List.ext_getElem (by simp)
  intro i hi _
  simp only [length_read] at hi
  simp only [getElem_read]
  exact h _ (by omega) (by omega)

variable {f : Flash} {n lo hi : Nat}

/-- A read equals a byte string when it does so byte by byte. -/
theorem read_eq_iff {off : Nat} {bs : List UInt8} :
    read f off bs.length = bs ↔ ∀ i (h : i < bs.length), f (off + i) = bs[i] := by
  constructor
  · intro hr i h
    have hi : i < (read f off bs.length).length := by simpa using h
    have := getElem_read f off bs.length i hi
    rw [← this]
    simp only [hr]
  · intro hb
    apply List.ext_getElem (by simp)
    intro i _ h
    rw [getElem_read]
    exact hb i h

/-! ## Traces -/

@[simp] theorem apply_nil (f : Flash) : apply f ([] : List (Op ν)) = f := rfl

@[simp] theorem apply_cons (f : Flash) (op : Op ν) (ops : List (Op ν)) :
    apply f (op :: ops) = apply (op.run f) ops := rfl

theorem apply_append (f : Flash) (xs ys : List (Op ν)) :
    apply f (xs ++ ys) = apply (apply f xs) ys := by
  simp [apply, List.foldl_append]

@[simp] theorem size_nil : size ([] : List (Op ν)) = 0 := rfl

@[simp] theorem size_cons (op : Op ν) (ops : List (Op ν)) :
    size (op :: ops) = op.size + size ops := by
  simp [size]

@[simp] theorem size_append (xs ys : List (Op ν)) : size (xs ++ ys) = size xs + size ys := by
  simp [size]

@[simp] theorem notes_nil : notes ([] : List (Op ν)) = [] := rfl

@[simp] theorem notes_append (xs ys : List (Op ν)) : notes (xs ++ ys) = notes xs ++ notes ys := by
  simp [notes]

@[simp] theorem notes_cons_note (v : ν) (ops : List (Op ν)) :
    notes (.note v :: ops) = v :: notes ops := by
  simp [notes]

@[simp] theorem notes_cons_erase (off len : Nat) (ops : List (Op ν)) :
    notes (.erase off len :: ops) = notes ops := by
  simp [notes]

@[simp] theorem notes_cons_write (off : Nat) (data : List UInt8) (ops : List (Op ν)) :
    notes (.write off data :: ops) = notes ops := by
  simp [notes]

@[simp] theorem cut_nil (n : Nat) : cut n ([] : List (Op ν)) = [] := by
  simp [cut]

theorem cut_of_size_le {ops : List (Op ν)} (h : size ops ≤ n) : cut n ops = ops := by
  induction ops generalizing n with
  | nil => simp
  | cons op ops ih =>
    rw [size_cons] at h
    rw [cut, if_pos (by omega), ih (by omega)]

theorem cut_append_of_lt {xs : List (Op ν)} (ys : List (Op ν)) (h : n < size xs) :
    cut n (xs ++ ys) = cut n xs := by
  induction xs generalizing n with
  | nil => simp at h
  | cons op xs ih =>
    rw [size_cons] at h
    rw [List.cons_append, cut, cut]
    split
    · rw [ih (by omega)]
    · rfl

theorem cut_append_of_le {xs : List (Op ν)} (ys : List (Op ν)) (h : size xs ≤ n) :
    cut n (xs ++ ys) = xs ++ cut (n - size xs) ys := by
  induction xs generalizing n with
  | nil => simp
  | cons op xs ih =>
    rw [size_cons] at h
    rw [List.cons_append, cut, if_pos (by omega), ih (by omega), size_cons, List.cons_append,
      Nat.sub_sub]

/-- A cut trace records the first events of the whole one. -/
theorem notes_cut_sublist (n : Nat) (ops : List (Op ν)) :
    List.Sublist (notes (cut n ops)) (notes ops) := by
  induction ops generalizing n with
  | nil => exact List.Sublist.refl _
  | cons op ops ih =>
    rw [cut]
    split
    · rcases op with v | ⟨off, len⟩ | ⟨off, data⟩
      · exact (ih _).cons_cons v
      · exact ih _
      · exact ih _
    rcases op with v | ⟨off, len⟩ | ⟨off, data⟩
    · exact (List.nil_sublist _).cons_cons v
    · exact List.nil_sublist _
    · exact List.nil_sublist _

/-! ## What a trace leaves alone -/

theorem Op.Within.take {op : Op ν} (h : op.Within lo hi) :
    (op.take n).Within lo hi := by
  cases op with
  | note v => trivial
  | erase off len => exact ⟨h.1, by have := h.2; omega⟩
  | write off data => exact ⟨h.1, by have := h.2; simp only [List.length_take]; omega⟩

theorem Op.run_frame {op : Op ν} {lo hi a : Nat} (h : op.Within lo hi) (ha : a < lo ∨ hi ≤ a) :
    op.run f a = f a := by
  cases op with
  | note v => rfl
  | erase off len =>
    obtain ⟨h1, h2⟩ := h
    simp only [Op.run]
    rw [if_neg (by omega)]
  | write off data =>
    obtain ⟨h1, h2⟩ := h
    simp only [Op.run]
    split
    · rw [List.getD_eq_getElem?_getD, List.getElem?_eq_none (by omega), Option.getD_none]
    · rfl

/-- A trace within `[lo, hi)` changes no address outside. -/
theorem apply_frame {ops : List (Op ν)} {lo hi a : Nat} (h : ∀ op ∈ ops, op.Within lo hi)
    (ha : a < lo ∨ hi ≤ a) : apply f ops a = f a := by
  induction ops generalizing f with
  | nil => rfl
  | cons op ops ih =>
    rw [apply_cons, ih (fun o ho => h o (List.mem_cons_of_mem _ ho)),
      Op.run_frame (h op List.mem_cons_self) ha]

theorem cut_within {ops : List (Op ν)} (n : Nat) (h : ∀ op ∈ ops, op.Within lo hi) :
    ∀ op ∈ cut n ops, op.Within lo hi := by
  induction ops generalizing n with
  | nil => simp
  | cons op ops ih =>
    rw [cut]
    split
    · intro o ho
      rcases List.mem_cons.mp ho with rfl | ho
      · exact h o List.mem_cons_self
      · exact ih _ (fun o ho => h o (List.mem_cons_of_mem _ ho)) o ho
    · intro o ho
      rw [List.mem_singleton.mp ho]
      exact (h op List.mem_cons_self).take

/-- The operation stays clear of an address. -/
def Op.Avoids (a : Nat) (op : Op ν) : Prop := ∃ lo hi, op.Within lo hi ∧ (a < lo ∨ hi ≤ a)

/-- Wherever a trace is cut, an address it stays clear of keeps its byte. -/
theorem apply_cut_avoids {ops : List (Op ν)} {a : Nat} (n : Nat) (h : ∀ op ∈ ops, op.Avoids a) :
    apply f (cut n ops) a = f a := by
  induction ops generalizing f n with
  | nil => rfl
  | cons op ops ih =>
    obtain ⟨lo, hi, hw, ha⟩ := h op List.mem_cons_self
    rw [cut]
    split
    · rw [apply_cons, ih _ (fun o ho => h o (List.mem_cons_of_mem _ ho)), Op.run_frame hw ha]
    · rw [apply_cons, apply_nil, Op.run_frame hw.take ha]

theorem apply_cut_zero (f : Flash) (ops : List (Op ν)) : apply f (cut 0 ops) = f := by
  have hno : ∀ op : Op ν, op.size = 0 → op.run f = f := by
    intro op hop
    rcases op with v | ⟨off, len⟩ | ⟨off, data⟩
    · rfl
    · funext a
      simp only [Op.size] at hop
      exact if_neg (by omega)
    · simp only [Op.size, List.length_eq_zero_iff] at hop
      simp [Op.run, hop]
  induction ops with
  | nil => rfl
  | cons op ops ih =>
    rw [cut]
    split
    · rw [apply_cons, hno op (by omega), Nat.zero_sub, ih]
    · refine hno _ ?_
      rcases op with v | ⟨off, len⟩ | ⟨off, data⟩ <;> simp [Op.take, Op.size]

/-! ## Programs -/

/-- A program: from the flash it starts on to its trace and its result. -/
def Prog (ν ε α : Type) : Type := Flash → List (Op ν) × Except ε α

namespace Prog

/-- The operations a program issues on `f`. -/
def ops (x : Prog ν ε α) (f : Flash) : List (Op ν) := (x f).1

/-- What a program returns on `f`. -/
def result (x : Prog ν ε α) (f : Flash) : Except ε α := (x f).2

def after (x : Prog ν ε α) (f : Flash) : Flash := apply f (x.ops f)

/-- The flash a program leaves when the power fails after `n` bytes. -/
def crash (x : Prog ν ε α) (n : Nat) (f : Flash) : Flash := apply f (cut n (x.ops f))

/-- Two programs in sequence. The second one runs only when the first one returned. -/
def seq (x : Prog ν ε α) (k : α → Prog ν ε β) : Prog ν ε β := fun f =>
  match x.result f with
  | .error e => (x.ops f, .error e)
  | .ok a => (x.ops f ++ (k a).ops (x.after f), (k a).result (x.after f))

instance : Monad (Prog ν ε) where
  pure a := fun _ => ([], .ok a)
  bind := seq

def fail (e : ε) : Prog ν ε α := fun _ => ([], .error e)

/-- Answer a question about the flash as it is now. -/
def look (q : Flash → Except ε α) : Prog ν ε α := fun f => ([], q f)

def issue (op : Op ν) : Prog ν ε Unit := fun _ => ([op], .ok ())

@[simp] theorem ops_pure (a : α) (f : Flash) : (pure a : Prog ν ε α).ops f = [] := rfl

@[simp] theorem result_pure (a : α) (f : Flash) : (pure a : Prog ν ε α).result f = .ok a := rfl

@[simp] theorem ops_fail (e : ε) (f : Flash) : (fail e : Prog ν ε α).ops f = [] := rfl

@[simp] theorem result_fail (e : ε) (f : Flash) : (fail e : Prog ν ε α).result f = .error e := rfl

@[simp] theorem ops_look (q : Flash → Except ε α) (f : Flash) :
    (look q : Prog ν ε α).ops f = [] := rfl

@[simp] theorem result_look (q : Flash → Except ε α) (f : Flash) :
    (look q : Prog ν ε α).result f = q f := rfl

@[simp] theorem ops_issue (op : Op ν) (f : Flash) : (issue op : Prog ν ε Unit).ops f = [op] := rfl

@[simp] theorem result_issue (op : Op ν) (f : Flash) :
    (issue op : Prog ν ε Unit).result f = .ok () := rfl

variable {k : α → Prog ν ε β} {x : Prog ν ε α}

theorem ops_bind_error {e : ε} (h : x.result f = .error e) :
    (x >>= k).ops f = x.ops f := by
  show (seq x k f).1 = _
  simp only [seq, h]

theorem result_bind_error {e : ε} (h : x.result f = .error e) :
    (x >>= k).result f = .error e := by
  show (seq x k f).2 = _
  simp only [seq, h]

/-- A sequence whose first part returned `a` goes on with `k a` on the flash it left. -/
theorem ops_bind_ok {a : α} (h : x.result f = .ok a) :
    (x >>= k).ops f = x.ops f ++ (k a).ops (x.after f) := by
  show (seq x k f).1 = _
  simp only [seq, h]

theorem mem_ops_bind {op : Op ν} (h : op ∈ x.ops f) : op ∈ (x >>= k).ops f := by
  rcases hx : x.result f with e | a
  · rwa [ops_bind_error hx]
  · rw [ops_bind_ok hx]
    exact List.mem_append_left _ h

theorem result_bind_ok {a : α} (h : x.result f = .ok a) :
    (x >>= k).result f = (k a).result (x.after f) := by
  show (seq x k f).2 = _
  simp only [seq, h]

theorem after_bind_ok {a : α} (h : x.result f = .ok a) :
    (x >>= k).after f = (k a).after (x.after f) := by
  rw [after, ops_bind_ok h, apply_append]
  rfl

theorem eq_of_run_eq {x y : Prog ν ε α} (ho : ∀ f, x.ops f = y.ops f)
    (hr : ∀ f, x.result f = y.result f) : x = y :=
  funext fun f => Prod.ext (ho f) (hr f)

private theorem bind_assoc_run {γ : Type} (x : Prog ν ε α) (k : α → Prog ν ε β)
    (l : β → Prog ν ε γ) (f : Flash) :
    (x >>= k >>= l).ops f = (x >>= fun a => k a >>= l).ops f ∧
      (x >>= k >>= l).result f = (x >>= fun a => k a >>= l).result f := by
  rcases hx : x.result f with e | a
  · rw [ops_bind_error (result_bind_error hx), result_bind_error (result_bind_error hx),
      ops_bind_error hx, ops_bind_error hx, result_bind_error hx]
    exact ⟨rfl, rfl⟩
  have hxk := result_bind_ok (k := k) hx
  have hxa := after_bind_ok (k := k) hx
  rw [ops_bind_ok hx, result_bind_ok hx]
  rcases hk : (k a).result (x.after f) with e | b
  · rw [hk] at hxk
    rw [ops_bind_error hxk, result_bind_error hxk, ops_bind_ok hx, ops_bind_error hk,
      result_bind_error hk]
    exact ⟨rfl, rfl⟩
  rw [hk] at hxk
  rw [ops_bind_ok hxk, result_bind_ok hxk, hxa, ops_bind_ok hx, ops_bind_ok hk,
    result_bind_ok hk, List.append_assoc]
  exact ⟨rfl, rfl⟩

instance : LawfulMonad (Prog ν ε) := by
  refine LawfulMonad.mk' _ ?_ (fun _ _ => rfl) ?_
  · intro α x
    refine eq_of_run_eq (fun f => ?_) (fun f => ?_) <;> rcases hr : x.result f with e | a
    · exact ops_bind_error hr
    · exact (ops_bind_ok hr).trans (List.append_nil _)
    · exact result_bind_error hr
    · exact result_bind_ok hr
  · intro α β γ x k l
    exact eq_of_run_eq (fun f => (bind_assoc_run x k l f).1) (fun f => (bind_assoc_run x k l f).2)

/-- Record an event, then run `x`. -/
def noting (v : ν) (x : Prog ν ε α) : Prog ν ε α := issue (.note v) >>= fun _ => x

theorem noting_ops (v : ν) (x : Prog ν ε α) (f : Flash) :
    (noting v x).ops f = .note v :: x.ops f := rfl

theorem noting_after (v : ν) (x : Prog ν ε α) (f : Flash) : (noting v x).after f = x.after f := rfl

theorem noting_crash (v : ν) (x : Prog ν ε α) (n : Nat) (f : Flash) :
    (noting v x).crash n f = x.crash n f := by
  rfl

theorem ops_forget (x : Prog ν ε α) (f : Flash) :
    (x >>= fun _ => (pure () : Prog ν ε Unit)).ops f = x.ops f := by
  rcases hr : x.result f with e | a
  · exact ops_bind_error hr
  · rw [ops_bind_ok hr, ops_pure, List.append_nil]

theorem crash_of_size_le (h : size (x.ops f) ≤ n) :
    x.crash n f = x.after f := by
  rw [crash, cut_of_size_le h, after]

theorem crash_zero (x : Prog ν ε α) (f : Flash) : x.crash 0 f = f := apply_cut_zero f _

theorem crash_bind_of_lt (h : n < size (x.ops f)) :
    (x >>= k).crash n f = x.crash n f := by
  cases hr : x.result f with
  | error e => rw [crash, ops_bind_error hr, crash]
  | ok a => rw [crash, ops_bind_ok hr, cut_append_of_lt _ h, crash]

theorem crash_bind_of_le {a : α} (hr : x.result f = .ok a) (h : size (x.ops f) ≤ n) :
    (x >>= k).crash n f = (k a).crash (n - size (x.ops f)) (x.after f) := by
  rw [crash, ops_bind_ok hr, cut_append_of_le _ h, apply_append]
  rfl

/-! ### What holds of every operation a program issues -/

/-- Every operation the program can issue meets `Q`. -/
def All (Q : Op ν → Prop) (x : Prog ν ε α) : Prop := ∀ f, ∀ op ∈ x.ops f, Q op

variable {Q : Op ν → Prop}

theorem All.pure (a : α) : All Q (Pure.pure a : Prog ν ε α) := fun _ _ h => absurd h (by simp)

theorem All.fail (e : ε) : All Q (fail e : Prog ν ε α) := fun _ _ h => absurd h (by simp)

theorem All.look (q : Flash → Except ε α) : All Q (look q : Prog ν ε α) :=
  fun _ _ h => absurd h (by simp)

theorem All.issue {op : Op ν} (h : Q op) : All Q (issue op : Prog ν ε Unit) := by
  intro f op' hop'
  rw [ops_issue, List.mem_singleton] at hop'
  rw [hop']
  exact h

theorem All.bind (hx : All Q x) (hk : ∀ a, All Q (k a)) :
    All Q (x >>= k) := by
  intro f op hop
  rcases hr : x.result f with e | a
  · rw [ops_bind_error hr] at hop
    exact hx f op hop
  rw [ops_bind_ok hr, List.mem_append] at hop
  rcases hop with hop | hop
  · exact hx f op hop
  · exact hk a _ op hop

theorem All.foldlM {γ : Type} {g : α → γ → Prog ν ε α} {l : List γ}
    (h : ∀ c ∈ l, ∀ a, All Q (g a c)) (a : α) : All Q (l.foldlM g a) := by
  induction l generalizing a with
  | nil => exact .pure a
  | cons c l ih =>
    exact (h c List.mem_cons_self a).bind fun a =>
      ih (fun c hc => h c (List.mem_cons_of_mem _ hc)) a

/-- A program that only records events leaves the flash as it is. -/
theorem All.after (h : All (fun op => ∃ v, op = .note v) x) (f : Flash) :
    x.after f = f := by
  have hap : ∀ (ops : List (Op ν)), (∀ op ∈ ops, ∃ v, op = Op.note v) → apply f ops = f := by
    intro ops
    induction ops with
    | nil => exact fun _ => rfl
    | cons op ops ih =>
      intro ho
      obtain ⟨v, rfl⟩ := ho op List.mem_cons_self
      exact ih fun op hop => ho op (List.mem_cons_of_mem _ hop)
  exact hap _ (h f)

end Prog

end FlashProg
