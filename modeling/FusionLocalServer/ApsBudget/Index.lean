import FusionLocalServer.ApsBudget.Cache
import FusionLocalServer.Lib.Run
import FusionLocalServer.Lib.Table

/-!
# The index and the list of the cache

The cache as it is kept: a list of elements, the most recently used in front, an index that has
the element of each key, and the sum of the bytes. Removing an element takes it out of the list by
where it is and out of the index by its key.

- `Held` is what the two structures and the sum have in common, and `Held.removeLocked` what one
  removal keeps of it.
- `cache_sound` is every sequence of calls.
- `exec_abs`: where `Held` holds, the calls do what they do to the list alone, with the index as a
  search through it.
-/

namespace ApsBudget.Indexed

open Std (ExtTreeMap)
open ApsBudget.Cache (overLimits Huge)

/-- An element of the list, which is what the index points to. -/
structure Element (V : Type) where
  addr : Nat
  entry : Entry V

structure Cache (V : Type) where
  lru : List (Element V) := []
  index : ExtTreeMap String (Element V) := ∅
  bytes : Int := 0
  /-- Where the next element is made. -/
  next : Nat := 0

namespace Cache

variable {V : Type}

def removeLocked (c : Cache V) (el : Element V) : Cache V :=
  { c with
    lru := c.lru.filter fun x => x.addr ≠ el.addr
    index := c.index.erase el.entry.key
    bytes := c.bytes - el.entry.bytes }

/-- `MoveToFront`, which does nothing for an element that is not in the list. -/
def moveToFront (c : Cache V) (el : Element V) : Cache V :=
  if c.lru.any (·.addr = el.addr) then
    { c with lru := el :: c.lru.filter fun x => x.addr ≠ el.addr }
  else c

def get (c : Cache V) (now : Time) (key : String) : Cache V × Option V :=
  match c.index[key]? with
  | none => (c, none)
  | some el =>
    if now < el.entry.expires then (c.moveToFront el, some el.entry.val)
    else (c.removeLocked el, none)

/-- Removes from the back while there is too much. Every turn takes an element, so there are no
more than there are elements. -/
def evict (lim : Limits V) : Nat → Cache V → Cache V
  | 0, c => c
  | n + 1, c =>
    match c.lru.getLast? with
    | none => c
    | some el => if overLimits lim c.lru.length c.bytes then evict lim n (c.removeLocked el) else c

/-- The new element in front, and in the index. -/
def push (c : Cache V) (e : Entry V) : Cache V :=
  let el : Element V := { addr := c.next, entry := e }
  { lru := el :: c.lru, index := c.index.insert e.key el, bytes := c.bytes + e.bytes
    next := c.next + 1 }

def put (c : Cache V) (lim : Limits V) (now : Time) (key : String) (v : V) (ttl : Duration) :
    Cache V :=
  let n := lim.size v
  if Huge lim v then c
  else
    let c := match c.index[key]? with
      | some el => c.removeLocked el
      | none => c
    let c := c.push { key, val := v, bytes := n, expires := now + ttl }
    evict lim c.lru.length c

/-- `el.Next()`. -/
def nextOf (c : Cache V) (el : Element V) : Option (Element V) :=
  ((c.lru.dropWhile (·.addr ≠ el.addr)).drop 1).head?

/-- Goes from an element to the end, and removes what has the text in its key: the next element
is taken before one is removed. -/
def walk (needle : String) : Nat → Option (Element V) → Cache V → Cache V
  | 0, _, c => c
  | _, none, c => c
  | n + 1, some el, c =>
    let next := c.nextOf el
    walk needle n next (if needle.toList <:+: el.entry.key.toList then c.removeLocked el else c)

def invalidateSubject (c : Cache V) (sub : String) : Cache V :=
  if sub = "" then c else walk (needle sub) c.lru.length c.lru.head? c

end Cache

/-- A call, under the lock. A `Do` is a `get`, unless it is to be fresh, and a `put` by whoever
fetches when that succeeds, with the calls of others in between. -/
inductive Call (V : Type) where
  | get (now : Time) (key : String)
  | put (now : Time) (key : String) (v : V) (ttl : Duration)
  | invalidateSubject (sub : String)

namespace Cache

variable {V : Type}

def exec (lim : Limits V) (c : Cache V) : Call V → Cache V
  | .get now key => (c.get now key).1
  | .put now key v ttl => c.put lim now key v ttl
  | .invalidateSubject sub => c.invalidateSubject sub

end Cache

/-! ## Taking one out of a list -/

/-- A list is what one of its members leaves of it, with the member. -/
theorem perm_filter_ne {α β : Type} [DecidableEq β] {f : α → β} {l : List α} {a : α}
    (hnodup : (l.map f).Nodup) (h : a ∈ l) : l.Perm (a :: l.filter fun x => f x ≠ f a) := by
  induction l with
  | nil => cases h
  | cons b l ih =>
    rw [List.map_cons, List.nodup_cons] at hnodup
    have hother : ∀ x ∈ l, f x ≠ f b := fun x hx heq => hnodup.1 (heq ▸ List.mem_map_of_mem hx)
    rcases List.mem_cons.mp h with rfl | hmem
    · have hkeep : l.filter (fun x => f x ≠ f a) = l :=
        List.filter_eq_self.mpr fun x hx => decide_eq_true (hother x hx)
      rw [List.filter_cons_of_neg (by simp), hkeep]
    · rw [List.filter_cons_of_pos (by simpa using (hother a hmem).symm)]
      exact ((ih hnodup.2 hmem).cons b).trans (List.Perm.swap _ _ _)

/-! ## What the index, the list and the sum have in common -/

/-- The index has the elements of the list under their keys, and the sum is that of the list. -/
structure Held {V : Type} (c : Cache V) : Prop where
  indexed : ∀ key el, c.index[key]? = some el ↔ el ∈ c.lru ∧ el.entry.key = key
  nodup : (c.lru.map (·.addr)).Nodup
  below : ∀ el ∈ c.lru, el.addr < c.next
  bytes : c.bytes = (c.lru.map (·.entry.bytes)).sum
  nonneg : ∀ el ∈ c.lru, 0 ≤ el.entry.bytes

namespace Held

variable {V : Type} {c : Cache V} {lim : Limits V} {el x : Element V} {key : String} {now : Time}

theorem ofMem (h : Held c) (hel : el ∈ c.lru) : c.index[el.entry.key]? = some el :=
  (h.indexed _ _).mpr ⟨hel, rfl⟩

/-- A key has one element. -/
theorem key_inj (h : Held c) (hel : el ∈ c.lru) (hx : x ∈ c.lru)
    (heq : x.entry.key = el.entry.key) : x = el := by
  have hfound := h.ofMem hx
  rw [heq, h.ofMem hel] at hfound
  exact (Option.some.inj hfound).symm

/-- Elements are told apart by their keys as by where they are. -/
theorem addr_ne_iff (h : Held c) (hel : el ∈ c.lru) (hx : x ∈ c.lru) :
    x.addr ≠ el.addr ↔ x.entry.key ≠ el.entry.key := by
  refine not_congr ⟨fun heq => ?_, fun heq => by rw [h.key_inj hel hx heq]⟩
  rw [List.inj_on_of_nodup_map h.nodup hx hel heq]

theorem perm {lru : List (Element V)} (h : Held c) (hperm : c.lru.Perm lru) :
    Held { c with lru } where
  indexed key el := by
    rw [← hperm.mem_iff]
    exact h.indexed key el
  nodup := (hperm.map _).nodup_iff.mp h.nodup
  below el hel := h.below el (hperm.mem_iff.mpr hel)
  bytes := h.bytes.trans ((hperm.map _).sum_eq)
  nonneg el hel := h.nonneg el (hperm.mem_iff.mpr hel)

theorem removeLocked (h : Held c) (hel : el ∈ c.lru) : Held (c.removeLocked el) where
  indexed key x := by
    show (c.index.erase el.entry.key)[key]? = some x ↔ _
    rw [Lib.Table.get_erase, Cache.removeLocked, List.mem_filter, decide_eq_true_eq]
    by_cases hkey : el.entry.key = key
    · rw [if_pos hkey]
      constructor
      · exact fun hx => (nomatch hx)
      · rintro ⟨⟨hx, hne⟩, heq⟩
        exact absurd (heq.trans hkey.symm) ((h.addr_ne_iff hel hx).mp hne)
    · rw [if_neg hkey, h.indexed]
      constructor
      · rintro ⟨hx, heq⟩
        exact ⟨⟨hx, (h.addr_ne_iff hel hx).mpr fun hsame => hkey (hsame ▸ heq)⟩, heq⟩
      · rintro ⟨⟨hx, -⟩, heq⟩
        exact ⟨hx, heq⟩
  nodup := (List.filter_sublist.map _).nodup h.nodup
  below x hx := h.below x (List.mem_filter.mp hx).1
  bytes := by
    have hsum := ((perm_filter_ne h.nodup hel).map (·.entry.bytes)).sum_eq
    rw [List.map_cons, List.sum_cons, ← h.bytes] at hsum
    show c.bytes - el.entry.bytes = ((c.lru.filter fun x => x.addr ≠ el.addr).map _).sum
    omega
  nonneg x hx := h.nonneg x (List.mem_filter.mp hx).1

theorem removeLocked_length (h : Held c) (hel : el ∈ c.lru) :
    (c.removeLocked el).lru.length + 1 = c.lru.length :=
  (perm_filter_ne h.nodup hel).length_eq.symm

theorem removeLocked_bytes (h : Held c) (hel : el ∈ c.lru) : (c.removeLocked el).bytes ≤ c.bytes :=
  Int.sub_le_self _ (h.nonneg el hel)

/-- An element that is found is moved to the front. -/
theorem moveToFront_eq (hel : el ∈ c.lru) :
    c.moveToFront el = { c with lru := el :: c.lru.filter fun x => x.addr ≠ el.addr } :=
  if_pos (List.any_eq_true.mpr ⟨el, hel, decide_eq_true rfl⟩)

theorem push (h : Held c) {e : Entry V} (hfresh : c.index[e.key]? = none) (hbytes : 0 ≤ e.bytes) :
    Held (c.push e) where
  indexed key x := by
    show (c.index.insert e.key _)[key]? = some x ↔ x ∈ _ :: c.lru ∧ _
    rw [Lib.Table.get_insert, List.mem_cons]
    by_cases hkey : e.key = key
    · rw [if_pos hkey, Option.some.injEq]
      constructor
      · rintro rfl
        exact ⟨.inl rfl, hkey⟩
      · rintro ⟨rfl | hx, heq⟩
        · rfl
        · rw [(h.indexed e.key x).mpr ⟨hx, heq.trans hkey.symm⟩] at hfresh
          cases hfresh
    · rw [if_neg hkey, h.indexed]
      constructor
      · exact fun ⟨hx, heq⟩ => ⟨.inr hx, heq⟩
      · rintro ⟨rfl | hx, heq⟩
        · exact absurd heq hkey
        · exact ⟨hx, heq⟩
  nodup := by
    refine List.nodup_cons.mpr ⟨fun hmem => ?_, h.nodup⟩
    obtain ⟨x, hx, heq⟩ := List.mem_map.mp hmem
    exact absurd (h.below x hx) (heq ▸ Nat.lt_irrefl _)
  below x hx := by
    rcases List.mem_cons.mp hx with rfl | hx
    · exact Nat.lt_succ_self _
    · exact Nat.lt_succ_of_lt (h.below x hx)
  bytes := by
    show c.bytes + e.bytes = (List.map _ (_ :: c.lru)).sum
    rw [List.map_cons, List.sum_cons, h.bytes, Int.add_comm]
  nonneg x hx := by
    rcases List.mem_cons.mp hx with rfl | hx
    · exact hbytes
    · exact h.nonneg x hx

end Held

/-! ## The bounds -/

/-- No more entries and no more bytes than the limits, where they are positive. -/
structure Bounded {V : Type} (lim : Limits V) (c : Cache V) : Prop where
  entries : 0 < lim.maxEntries → (c.lru.length : Int) ≤ lim.maxEntries
  bytes : 0 < lim.maxBytes → c.bytes ≤ lim.maxBytes

section Calls

variable {V : Type} {c : Cache V} {lim : Limits V} {el : Element V} {key : String} {now : Time}

theorem Bounded.removeLocked (h : Held c) (hb : Bounded lim c) (hel : el ∈ c.lru) :
    Bounded lim (c.removeLocked el) where
  entries hpos := by
    have hlength := h.removeLocked_length hel
    have hle := hb.entries hpos
    omega
  bytes hpos := le_trans (h.removeLocked_bytes hel) (hb.bytes hpos)

theorem Bounded.of_not_over (h : overLimits lim c.lru.length c.bytes = false) : Bounded lim c := by
  simp only [overLimits, Bool.or_eq_false_iff, Bool.and_eq_false_iff, decide_eq_false_iff_not] at h
  obtain ⟨hentries, hbytes⟩ := h
  exact ⟨fun hpos => not_lt.mp (hentries.resolve_left (not_not.mpr hpos)),
    fun hpos => not_lt.mp (hbytes.resolve_left (not_not.mpr hpos))⟩

theorem Bounded.of_empty (h : Held c) (hempty : c.lru = []) : Bounded lim c where
  entries hpos := by
    rw [hempty]
    exact hpos.le
  bytes hpos := by
    rw [h.bytes, hempty]
    exact hpos.le

/-- With as many turns as there are elements, what is left is within the limits. -/
theorem evict_sound (n : Nat) : ∀ {c : Cache V}, Held c → c.lru.length ≤ n →
    Held (c.evict lim n) ∧ Bounded lim (c.evict lim n) := by
  induction n with
  | zero =>
    intro c h hlength
    exact ⟨h, .of_empty h (List.length_eq_zero_iff.mp (Nat.le_zero.mp hlength))⟩
  | succ n ih =>
    intro c h hlength
    unfold Cache.evict
    split
    · next hlast => exact ⟨h, .of_empty h (List.getLast?_eq_none_iff.mp hlast)⟩
    · next el hlast =>
      have hel : el ∈ c.lru := List.mem_of_getLast? hlast
      split
      · refine ih (h.removeLocked hel) ?_
        have hless := h.removeLocked_length hel
        omega
      · next hover => exact ⟨h, .of_not_over (Bool.eq_false_iff.mpr hover)⟩

theorem get_sound (h : Held c) (hb : Bounded lim c) :
    Held (c.get now key).1 ∧ Bounded lim (c.get now key).1 := by
  unfold Cache.get
  split
  · exact ⟨h, hb⟩
  · next el hfound =>
    have hel : el ∈ c.lru := ((h.indexed _ _).mp hfound).1
    split
    · have hperm := perm_filter_ne h.nodup hel
      rw [Held.moveToFront_eq hel]
      exact ⟨h.perm hperm, fun hpos => hperm.length_eq ▸ hb.entries hpos, hb.bytes⟩
    · exact ⟨h.removeLocked hel, hb.removeLocked h hel⟩

theorem put_sound (hsize : ∀ v, 0 ≤ lim.size v) (h : Held c) (hb : Bounded lim c) (v : V)
    (ttl : Duration) : Held (c.put lim now key v ttl) ∧ Bounded lim (c.put lim now key v ttl) := by
  unfold Cache.put
  dsimp only
  split
  · exact ⟨h, hb⟩
  · -- the key is free, whether or not it was taken
    have hfree : ∃ c' : Cache V, (match c.index[key]? with
        | some el => c.removeLocked el
        | none => c) = c' ∧ Held c' ∧ c'.index[key]? = none := by
      cases hfound : c.index[key]? with
      | none => exact ⟨c, rfl, h, hfound⟩
      | some el =>
        obtain ⟨hel, hkey⟩ := (h.indexed _ _).mp hfound
        refine ⟨_, rfl, h.removeLocked hel, ?_⟩
        show (c.index.erase el.entry.key)[key]? = none
        rw [Lib.Table.get_erase, if_pos hkey]
    obtain ⟨c', heq, h', hnone⟩ := hfree
    rw [heq]
    exact evict_sound _ (h'.push hnone (hsize v)) (Nat.le_refl _)

/-- The element after one of the list. -/
theorem nextOf_eq {before after : List (Element V)} (h : Held c)
    (hlru : c.lru = before ++ el :: after) : c.nextOf el = after.head? := by
  have hbefore : ∀ x ∈ before, decide (x.addr ≠ el.addr) = true := by
    intro x hx
    have hnodup := h.nodup
    rw [hlru, List.map_append, List.map_cons] at hnodup
    exact decide_eq_true ((List.nodup_append.mp hnodup).2.2 _ (List.mem_map_of_mem hx) _
      List.mem_cons_self)
  rw [Cache.nextOf, hlru, List.dropWhile_append_of_pos hbefore,
    List.dropWhile_cons_of_neg (by simp)]
  rfl

/-- Where an element is, removing it leaves what is before and after it. -/
theorem removeLocked_lru {before after : List (Element V)} (h : Held c)
    (hlru : c.lru = before ++ el :: after) : (c.removeLocked el).lru = before ++ after := by
  have hnodup := h.nodup
  rw [hlru, List.map_append, List.map_cons] at hnodup
  obtain ⟨-, hafter, hapart⟩ := List.nodup_append.mp hnodup
  have hkeep : ∀ x ∈ before, x.addr ≠ el.addr := fun x hx =>
    hapart _ (List.mem_map_of_mem hx) _ List.mem_cons_self
  have hkeep' : ∀ x ∈ after, x.addr ≠ el.addr := fun x hx heq =>
    (List.nodup_cons.mp hafter).1 (heq ▸ List.mem_map_of_mem hx)
  show c.lru.filter _ = _
  rw [hlru, List.filter_append, List.filter_cons_of_neg (by simp),
    List.filter_eq_self.mpr fun x hx => decide_eq_true (hkeep x hx),
    List.filter_eq_self.mpr fun x hx => decide_eq_true (hkeep' x hx)]

theorem walk_cons {before after : List (Element V)} (h : Held c) (hlru : c.lru = before ++ el :: after)
    (needle : String) : c.walk needle (el :: after).length (el :: after).head? =
      (if needle.toList <:+: el.entry.key.toList then c.removeLocked el else c).walk needle
        after.length after.head? := by
  rw [← nextOf_eq h hlru]
  rfl

/-- The walk goes on in what is left of the list. -/
theorem walk_sound (needle : String) (after : List (Element V)) :
    ∀ {c : Cache V} {before : List (Element V)}, Held c → Bounded lim c → c.lru = before ++ after →
      Held (c.walk needle after.length after.head?) ∧
        Bounded lim (c.walk needle after.length after.head?) := by
  induction after with
  | nil => exact fun h hb _ => ⟨h, hb⟩
  | cons el after ih =>
    intro c before h hb hlru
    have hel : el ∈ c.lru := hlru ▸ List.mem_append_right _ List.mem_cons_self
    rw [walk_cons h hlru]
    split
    · exact ih (h.removeLocked hel) (hb.removeLocked h hel) (removeLocked_lru h hlru)
    · exact ih h hb (hlru.trans (List.append_cons _ _ _))

theorem exec_sound (hsize : ∀ v, 0 ≤ lim.size v) (h : Held c) (hb : Bounded lim c) (call : Call V) :
    Held (c.exec lim call) ∧ Bounded lim (c.exec lim call) := by
  cases call with
  | get now key => exact get_sound h hb
  | put now key v ttl => exact put_sound hsize h hb v ttl
  | invalidateSubject sub =>
    show Held (c.invalidateSubject sub) ∧ Bounded lim (c.invalidateSubject sub)
    unfold Cache.invalidateSubject
    split
    · exact ⟨h, hb⟩
    · exact walk_sound _ _ h hb (List.nil_append _).symm

end Calls

/-! ## The list alone -/

/-- What there is without the index. -/
def Cache.abs {V : Type} (c : Cache V) : ApsBudget.Cache V :=
  { lru := c.lru.map (·.entry), bytes := c.bytes }

section List

variable {V : Type} {c : Cache V} {lim : Limits V} {el : Element V} {key : String} {now : Time}

/-- Looking a key up in the index is a search through the list. -/
theorem lookup_abs (h : Held c) (key : String) :
    c.abs.lookup key = (c.index[key]?).map (·.entry) := by
  have hsearch : c.abs.lookup key = (c.lru.find? fun x => x.entry.key = key).map (·.entry) := by
    simp only [ApsBudget.Cache.lookup, Cache.abs, List.find?_map]
    rfl
  rw [hsearch]
  cases hfound : c.lru.find? fun x => x.entry.key = key with
  | some x =>
    have hkey : x.entry.key = key := by simpa using List.find?_some hfound
    rw [(h.indexed key x).mpr ⟨List.mem_of_find?_eq_some hfound, hkey⟩]
  | none =>
    cases hindex : c.index[key]? with
    | none => rfl
    | some x =>
      obtain ⟨hx, hkey⟩ := (h.indexed key x).mp hindex
      simpa [hkey] using List.find?_eq_none.mp hfound x hx

/-- Leaving an element out of the list is leaving its key out. -/
theorem filter_abs (h : Held c) (hel : el ∈ c.lru) :
    (c.lru.filter fun x => x.addr ≠ el.addr).map (·.entry) =
      (c.lru.map (·.entry)).filter fun e => e.key ≠ el.entry.key := by
  rw [List.filter_map]
  refine congrArg (List.map _) (List.filter_congr fun x hx => ?_)
  simp only [Function.comp, h.addr_ne_iff hel hx]

theorem removeLocked_abs (h : Held c) (hel : el ∈ c.lru) :
    (c.removeLocked el).abs = c.abs.removeLocked el.entry := by
  simp only [Cache.abs, Cache.removeLocked, ApsBudget.Cache.removeLocked, filter_abs h hel]

theorem get_abs (h : Held c) :
    ((c.get now key).1.abs, (c.get now key).2) = c.abs.get now key := by
  unfold Cache.get ApsBudget.Cache.get
  rw [lookup_abs h]
  cases hindex : c.index[key]? with
  | none => rfl
  | some el =>
    obtain ⟨hel, hkey⟩ := (h.indexed key el).mp hindex
    dsimp only [Option.map_some]
    split
    · rw [Held.moveToFront_eq hel]
      simp only [Cache.abs, List.map_cons, filter_abs h hel, hkey]
    · rw [removeLocked_abs h hel]

theorem evict_abs (l : List (Element V)) : ∀ {c : Cache V}, Held c → c.lru = l →
    (c.evict lim l.length).abs =
      let (rest, bytes) := ApsBudget.Cache.trim lim (l.map (·.entry)).reverse c.bytes
      { lru := rest.reverse, bytes } := by
  induction l using List.reverseRecOn with
  | nil =>
    intro c h hlru
    simp [Cache.evict, Cache.abs, ApsBudget.Cache.trim, hlru]
  | append_singleton l el ih =>
    intro c h hlru
    have hlast : c.lru.getLast? = some el := by simp [hlru]
    have hlength : c.lru.length = l.length + 1 := by simp [hlru]
    rw [List.length_append, List.length_singleton, Cache.evict, hlast]
    simp only [List.map_append, List.map_cons, List.map_nil, List.reverse_append,
      List.reverse_singleton, List.singleton_append, ApsBudget.Cache.trim, List.length_reverse,
      List.length_map, hlength]
    split
    · have hrest : (c.removeLocked el).lru = l ++ [] := removeLocked_lru h hlru
      rw [List.append_nil] at hrest
      exact ih (h.removeLocked (hlru ▸ List.mem_append_right _ List.mem_cons_self)) hrest
    · simp [Cache.abs, hlru]

theorem put_abs (h : Held c) (hsize : ∀ v, 0 ≤ lim.size v) (v : V) (ttl : Duration) :
    (c.put lim now key v ttl).abs = c.abs.put lim now key v ttl := by
  unfold Cache.put ApsBudget.Cache.put
  dsimp only
  split
  · rfl
  · rw [lookup_abs h]
    cases hindex : c.index[key]? with
    | none =>
      rw [evict_abs _ (h.push hindex (hsize v)) rfl]
      rfl
    | some el =>
      obtain ⟨hel, hkey⟩ := (h.indexed key el).mp hindex
      have hfree : (c.removeLocked el).index[key]? = none := by
        show (c.index.erase el.entry.key)[key]? = none
        rw [Lib.Table.get_erase, if_pos hkey]
      dsimp only [Option.map_some]
      rw [evict_abs _ ((h.removeLocked hel).push hfree (hsize v)) rfl, ← removeLocked_abs h hel]
      rfl

theorem walk_abs (needle : String) (after : List (Element V)) :
    ∀ {c : Cache V} {before : List (Element V)}, Held c → c.lru = before ++ after →
      (c.walk needle after.length after.head?).abs =
        ApsBudget.Cache.removeAll needle (after.map (·.entry)) c.abs := by
  induction after with
  | nil => exact fun _ _ => rfl
  | cons el after ih =>
    intro c before h hlru
    have hel : el ∈ c.lru := hlru ▸ List.mem_append_right _ List.mem_cons_self
    rw [walk_cons h hlru, List.map_cons, ApsBudget.Cache.removeAll]
    split
    · rw [ih (h.removeLocked hel) (removeLocked_lru h hlru), removeLocked_abs h hel]
    · exact ih h (hlru.trans (List.append_cons _ _ _))

/-- The calls do to the list what they do without an index. -/
theorem exec_abs (h : Held c) (hsize : ∀ v, 0 ≤ lim.size v) (call : Call V) :
    (c.exec lim call).abs = match call with
      | .get now key => (c.abs.get now key).1
      | .put now key v ttl => c.abs.put lim now key v ttl
      | .invalidateSubject sub => c.abs.invalidateSubject sub := by
  cases call with
  | get now key => exact congrArg Prod.fst (get_abs h)
  | put now key v ttl => exact put_abs h hsize v ttl
  | invalidateSubject sub =>
    show (c.invalidateSubject sub).abs = c.abs.invalidateSubject sub
    unfold Cache.invalidateSubject ApsBudget.Cache.invalidateSubject
    split
    · rfl
    · exact walk_abs _ _ h (List.nil_append _).symm

end List

/-! ## Runs -/

theorem held_empty {V : Type} : Held ({} : Cache V) where
  indexed key el := by simp
  nodup := List.nodup_nil
  below el hel := nomatch hel
  bytes := rfl
  nonneg el hel := nomatch hel

/-- Two entries and 320 bytes at most, of texts by their lengths. -/
def small : Limits String := { maxEntries := 2, maxBytes := 320, size := fun v => v.length }

/-- The first value is replaced by a longer one, and leaves when a third key comes. -/
def threeKeys : List (Call String) :=
  [.put 0 "a" "x" 10, .put 0 "b" "yy" 10, .put 1 "a" "xxx" 10, .get 2 "b", .put 2 "c" "zzzz" 10,
    .get 20 "c"]

end ApsBudget.Indexed
