import Std.Data.ExtTreeMap
import FusionLocalServer.ApsBudget.Bucket

/-!
# The cache of answers

Answers are kept for a short time, the most recently used in front, within bounds on their
number and on their bytes. The index by keys is a search through the list, in which a key has one
entry.
-/

namespace ApsBudget

open Std

/-! ## Keys -/

section Key

/-- The value of a variable: a text, or what `json.Marshal` has to write. -/
inductive Var (J : Type) where
  | text (s : String)
  | value (x : J)

variable {J : Type}

/-- What is written for a value, which is nothing when it cannot be marshalled. -/
def Var.written (marshal : J → Option String) : Var J → String
  | .text s => s
  | .value x => (marshal x).getD ""

/-- `Key`: the subject is empty for a shared operation. -/
def Key (marshal : J → Option String) (endpoint op subject : String)
    (vars : ExtTreeMap String (Var J)) : String :=
  endpoint ++ "|" ++ op ++ "|" ++ subject ++ "|" ++
    String.join (vars.toList.map fun var => var.1 ++ "=" ++ var.2.written marshal ++ ";")

/-- The key was built for the subject. -/
def BuiltFor (marshal : J → Option String) (subject key : String) : Prop :=
  ∃ endpoint op vars, key = Key marshal endpoint op subject vars

/-- What `InvalidateSubject` looks for in a key. -/
def needle (subject : String) : String := "|" ++ subject ++ "|"

theorem BuiltFor.needle {marshal : J → Option String} {subject key : String}
    (h : BuiltFor marshal subject key) : (needle subject).toList <:+: key.toList := by
  obtain ⟨endpoint, op, vars, rfl⟩ := h
  have hparts : ∀ rest : String, (ApsBudget.needle subject).toList <:+:
      (endpoint ++ "|" ++ op ++ "|" ++ subject ++ "|" ++ rest).toList := by
    intro rest
    refine ⟨(endpoint ++ "|" ++ op).toList, rest.toList, ?_⟩
    simp [ApsBudget.needle, String.toList_append]
  exact hparts _

end Key

/-! ## The cache -/

structure Entry (V : Type) where
  key : String
  val : V
  bytes : Int
  expires : Time

/-- What a cache is made with. -/
structure Limits (V : Type) where
  /-- Zero for no bound. -/
  maxEntries : Int
  /-- Zero for no bound. -/
  maxBytes : Int
  size : V → Int

structure Cache (V : Type) where
  lru : List (Entry V) := []
  bytes : Int := 0

namespace Cache

variable {V : Type}

def lookup (c : Cache V) (key : String) : Option (Entry V) := c.lru.find? fun e => e.key = key

def removeLocked (c : Cache V) (e : Entry V) : Cache V :=
  { lru := c.lru.filter fun x => x.key ≠ e.key, bytes := c.bytes - e.bytes }

def get (c : Cache V) (now : Time) (key : String) : Cache V × Option V :=
  match c.lookup key with
  | none => (c, none)
  | some e =>
    if now < e.expires then
      ({ c with lru := e :: c.lru.filter fun x => x.key ≠ key }, some e.val)
    else (c.removeLocked e, none)

/-- More entries, or more bytes, than the cache is to hold. -/
def overLimits (lim : Limits V) (entries : Nat) (bytes : Int) : Bool :=
  (0 < lim.maxEntries && lim.maxEntries < entries) || (0 < lim.maxBytes && lim.maxBytes < bytes)

/-- Takes out entries from the back, which comes first here, while there are too many. -/
def trim (lim : Limits V) : List (Entry V) → Int → List (Entry V) × Int
  | [], bytes => ([], bytes)
  | e :: es, bytes =>
    if overLimits lim (es.length + 1) bytes then trim lim es (bytes - e.bytes) else (e :: es, bytes)

/-- A value that alone takes more than its share, which is not stored. -/
def Huge (lim : Limits V) (v : V) : Prop := 0 < lim.maxBytes ∧ lim.maxBytes / 32 < lim.size v

instance (lim : Limits V) (v : V) : Decidable (Huge lim v) := inferInstanceAs (Decidable (_ ∧ _))

def put (c : Cache V) (lim : Limits V) (now : Time) (key : String) (v : V) (ttl : Duration) :
    Cache V :=
  let n := lim.size v
  if Huge lim v then c
  else
    let c := match c.lookup key with
      | some e => c.removeLocked e
      | none => c
    let e : Entry V := { key, val := v, bytes := n, expires := now + ttl }
    let (rest, bytes) := trim lim (e :: c.lru).reverse (c.bytes + n)
    { lru := rest.reverse, bytes }

/-- Removes every entry whose key has the text in it. -/
def removeAll (needle : String) : List (Entry V) → Cache V → Cache V
  | [], c => c
  | e :: es, c =>
    removeAll needle es (if needle.toList <:+: e.key.toList then c.removeLocked e else c)

def invalidateSubject (c : Cache V) (sub : String) : Cache V :=
  if sub = "" then c else removeAll (needle sub) c.lru c

/-! ## What is left and what is new -/

variable {c : Cache V} {lim : Limits V} {now : Time} {key : String}

theorem lookup_some {e : Entry V} (h : c.lookup key = some e) : e ∈ c.lru ∧ e.key = key :=
  ⟨List.mem_of_find?_eq_some h, by simpa using List.find?_some h⟩

theorem lookup_none (h : c.lookup key = none) : ∀ e ∈ c.lru, e.key ≠ key := by
  simpa [lookup] using h

theorem mem_removeLocked {e x : Entry V} :
    x ∈ (c.removeLocked e).lru ↔ x ∈ c.lru ∧ x.key ≠ e.key := by
  simp [removeLocked]

theorem mem_get {x : Entry V} (h : x ∈ (c.get now key).1.lru) : x ∈ c.lru := by
  unfold get at h
  split at h
  · exact h
  · next e he =>
    split at h
    · rcases List.mem_cons.mp h with rfl | h
      · exact (lookup_some he).1
      · exact (List.mem_filter.mp h).1
    · exact (mem_removeLocked.mp h).1

/-- A hit is an entry that has not expired. -/
theorem get_hit {v : V} (h : (c.get now key).2 = some v) :
    ∃ e ∈ c.lru, e.key = key ∧ now < e.expires ∧ e.val = v := by
  unfold get at h
  split at h
  · cases h
  · next e he =>
    split at h
    · next hlt =>
      cases h
      exact ⟨e, (lookup_some he).1, (lookup_some he).2, hlt, rfl⟩
    · cases h

theorem mem_trim {es : List (Entry V)} {bytes : Int} {x : Entry V}
    (h : x ∈ (trim lim es bytes).1) : x ∈ es := by
  induction es generalizing bytes with
  | nil => exact h
  | cons e es ih =>
    unfold trim at h
    split at h
    · exact List.mem_cons_of_mem _ (ih h)
    · exact h

/-- What is stored is the new value, or another key's. -/
theorem mem_put {v : V} {ttl : Duration} (hstored : ¬ Huge lim v) {x : Entry V}
    (h : x ∈ (c.put lim now key v ttl).lru) :
    (x.key = key ∧ x.val = v ∧ x.expires = now + ttl) ∨ (x ∈ c.lru ∧ x.key ≠ key) := by
  unfold put at h
  rw [if_neg hstored] at h
  rcases List.mem_cons.mp (List.mem_reverse.mp (mem_trim (List.mem_reverse.mp h))) with rfl | hold
  · exact .inl ⟨rfl, rfl, rfl⟩
  · right
    split at hold
    · next e he =>
      rw [mem_removeLocked, (lookup_some he).2] at hold
      exact hold
    · next hnone => exact ⟨hold, lookup_none hnone x hold⟩

theorem put_huge {v : V} {ttl : Duration} (h : Huge lim v) : c.put lim now key v ttl = c := if_pos h

theorem mem_removeAll {needle : String} {es : List (Entry V)} {x : Entry V} :
    x ∈ (removeAll needle es c).lru ↔ x ∈ c.lru ∧
      ∀ e ∈ es, needle.toList <:+: e.key.toList → x.key ≠ e.key := by
  induction es generalizing c with
  | nil => simp [removeAll]
  | cons e es ih =>
    rw [removeAll, ih, List.forall_mem_cons]
    split
    · next hmem => simp [mem_removeLocked, hmem, and_assoc]
    · next hnot => simp [hnot]

/-- Only entries of other subjects are left. -/
theorem mem_invalidateSubject {sub : String} (hsub : sub ≠ "") {x : Entry V} :
    x ∈ (c.invalidateSubject sub).lru ↔ x ∈ c.lru ∧ ¬ (needle sub).toList <:+: x.key.toList := by
  rw [invalidateSubject, if_neg hsub, mem_removeAll]
  refine and_congr_right fun hmem => ⟨fun h hneedle => h x hmem hneedle rfl, ?_⟩
  rintro hnot e he hneedle heq
  exact hnot (heq ▸ hneedle)

end Cache

end ApsBudget
