import FusionLocalServer.ApsBudget.Cache
import FusionLocalServer.Lib.Table

/-!
# Which requests have a key of their own

A key is the parts of a request one after the other, with a bar behind each of the first three
and `name=value;` for each variable, the parts as they are. Most requests share their key with
another: the text of a number is that of a string, and two variables read as one whose value
goes on with the second. A request has its key to itself exactly when it can be read off it in
no other way (`Readable`).
-/

namespace ApsBudget.CacheKey

open Std

/-! ## Cutting a text -/

section Cut

variable {α : Type} {c : α} {xs xs' ys ys' : List α}

/-- A text is cut at the first of a character in one way. -/
theorem cut_unique (h : xs ++ c :: ys = xs' ++ c :: ys') (hxs : c ∉ xs) (hxs' : c ∉ xs') :
    xs = xs' ∧ ys = ys' := by
  induction xs generalizing xs' with
  | nil =>
    cases xs' with
    | nil => exact ⟨rfl, (List.cons.inj h).2⟩
    | cons x xs' => exact absurd (List.mem_cons.mpr (.inl (List.cons.inj h).1)) hxs'
  | cons x xs ih =>
    cases xs' with
    | nil => exact absurd (List.mem_cons.mpr (.inl (List.cons.inj h).1.symm)) hxs
    | cons x' xs' =>
      obtain ⟨rfl, htail⟩ := List.cons.inj h
      obtain ⟨rfl, rfl⟩ := ih htail (fun hc => hxs (List.mem_cons_of_mem _ hc))
        fun hc => hxs' (List.mem_cons_of_mem _ hc)
      exact ⟨rfl, rfl⟩

/-- Two cuts of a text are the same, or one is behind the other. -/
theorem cut_cases (h : xs ++ c :: ys = xs' ++ c :: ys') :
    (xs = xs' ∧ ys = ys') ∨ (∃ m, xs' = xs ++ c :: m ∧ ys = m ++ c :: ys') ∨
      ∃ m, xs = xs' ++ c :: m ∧ ys' = m ++ c :: ys := by
  rcases List.append_eq_append_iff.mp h with ⟨m, rfl, hm⟩ | ⟨m, rfl, hm⟩
  · cases m with
    | nil => exact .inl ⟨(List.append_nil _).symm, (List.cons.inj hm).2⟩
    | cons x m =>
      obtain ⟨rfl, rfl⟩ := List.cons.inj hm
      exact .inr (.inl ⟨m, rfl, rfl⟩)
  · cases m with
    | nil => exact .inl ⟨List.append_nil _, (List.cons.inj hm).2.symm⟩
    | cons x m =>
      obtain ⟨rfl, rfl⟩ := List.cons.inj hm
      exact .inr (.inr ⟨m, rfl, rfl⟩)

end Cut

/-! ## Requests -/

/-- What a key is made of. -/
@[ext]
structure Request (J : Type) where
  endpoint : String
  op : String
  subject : String
  vars : ExtTreeMap String (Var J)

namespace Request

variable {J : Type} {encode : J → String} {r r' : Request J}

/-- The request's key, when all values can be encoded. -/
def key (encode : J → String) (r : Request J) : String :=
  Key (fun x => some (encode x)) r.endpoint r.op r.subject r.vars

/-- What is written for the variables. -/
def varText (encode : J → String) (vars : List (String × Var J)) : List Char :=
  vars.flatMap fun var =>
    var.1.toList ++ '=' :: ((var.2.written fun x => some (encode x)).toList ++ [';'])

/-- What is written before them. -/
def headText (r : Request J) : List Char :=
  r.endpoint.toList ++ '|' :: (r.op.toList ++ '|' :: r.subject.toList)

theorem key_toList : (r.key encode).toList =
    r.headText ++ '|' :: varText encode r.vars.toList := by
  unfold key Key headText varText
  simp [String.toList_join, List.flatMap_map]

theorem key_inj : r'.key encode = r.key encode ↔
    r'.headText ++ '|' :: varText encode r'.vars.toList =
      r.headText ++ '|' :: varText encode r.vars.toList := by
  rw [← String.toList_inj, key_toList, key_toList]

/-- One variable whose value is a text. -/
def single (name value : String) : ExtTreeMap String (Var J) :=
  ({} : ExtTreeMap String (Var J)).insert name (.text value)

/-- The request can be read off its key: no bar in its parts, and at most one variable, a text
that no other value is written as, with no second equals sign, and no bar before the first. -/
structure Readable (encode : J → String) (r : Request J) : Prop where
  endpoint : '|' ∉ r.endpoint.toList
  op : '|' ∉ r.op.toList
  subject : '|' ∉ r.subject.toList
  vars : r.vars = {} ∨ ∃ name value, r.vars = single name value ∧ '|' ∉ name.toList ∧
    '=' ∉ name.toList ∧ '=' ∉ value.toList ∧ ∀ x, encode x ≠ value

theorem toList_single (name value : String) :
    (single name value : ExtTreeMap String (Var J)).toList = [(name, .text value)] := by
  have hperm := Lib.Table.toList_insert_perm ({} : ExtTreeMap String (Var J)) name (Var.text value)
  exact List.perm_singleton.mp hperm

theorem varText_single (name value : String) :
    varText encode (single name value : ExtTreeMap String (Var J)).toList =
      name.toList ++ '=' :: (value.toList ++ [';']) := by
  rw [toList_single]
  exact List.append_nil _

/-- The text of variables ends in a semicolon. -/
theorem varText_snoc (encode : J → String) (vars : List (String × Var J)) :
    vars = [] ∨ ∃ cs, varText encode vars = cs ++ [';'] := by
  induction vars with
  | nil => exact .inl rfl
  | cons var vars ih =>
    right
    unfold varText at ih ⊢
    rw [List.flatMap_cons]
    rcases ih with rfl | ⟨cs, hcs⟩
    · refine ⟨var.1.toList ++ '=' :: (var.2.written fun x => some (encode x)).toList, ?_⟩
      simp
    · rw [hcs, ← List.append_assoc]
      exact ⟨_, rfl⟩

/-! ## Requests that share their key -/

/-- No other request has the key. -/
def Alone (encode : J → String) (r : Request J) : Prop :=
  ∀ r' : Request J, r'.key encode = r.key encode → r' = r

theorem Alone.endpoint (h : Alone encode r) : '|' ∉ r.endpoint.toList := by
  intro hbar
  obtain ⟨as, bs, has⟩ := List.append_of_mem hbar
  have hsame := h { r with
    endpoint := String.ofList as, op := String.ofList bs, subject := r.op ++ "|" ++ r.subject } <| by
      rw [key_inj]
      simp [headText, has]
  have hlen := congrArg (fun r => r.endpoint.toList.length) hsame
  simp [has] at hlen

theorem Alone.op (h : Alone encode r) : '|' ∉ r.op.toList := by
  intro hbar
  obtain ⟨as, bs, has⟩ := List.append_of_mem hbar
  have hsame := h { r with
    op := String.ofList as, subject := String.ofList bs ++ "|" ++ r.subject } <| by
      rw [key_inj]
      simp [headText, has]
  have hlen := congrArg (fun r => r.op.toList.length) hsame
  simp [has] at hlen

theorem Alone.subject (h : Alone encode r) : '|' ∉ r.subject.toList := by
  intro hbar
  obtain ⟨as, bs, has⟩ := List.append_of_mem hbar
  have hsame := h { r with
    op := r.op ++ "|" ++ String.ofList as, subject := String.ofList bs } <| by
      rw [key_inj]
      simp [headText, has]
  have hlen := congrArg (fun r => r.op.toList.length) hsame
  simp at hlen

/-- All variables read as one, whose value goes on to the end. -/
theorem Alone.vars (h : Alone encode r) :
    r.vars = {} ∨ ∃ name value, r.vars = single name value := by
  cases hl : r.vars.toList with
  | nil => exact .inl (ExtTreeMap.toList_inj.mp (by rw [hl]; rfl))
  | cons var rest =>
    right
    have hend : ∃ cs, (var.2.written fun x => some (encode x)).toList ++
        ';' :: varText encode rest = cs ++ [';'] := by
      rcases varText_snoc encode rest with rfl | ⟨cs, hcs⟩
      · exact ⟨_, rfl⟩
      · exact ⟨_, by rw [hcs, ← List.cons_append, ← List.append_assoc]⟩
    obtain ⟨cs, hcs⟩ := hend
    have hsame := h { r with vars := single var.1 (String.ofList cs) } <| by
      rw [key_inj, varText_single, hl]
      unfold varText at hcs ⊢
      rw [List.flatMap_cons]
      simp [headText, ← hcs]
    exact ⟨_, _, (congrArg Request.vars hsame).symm⟩

section Single

variable {name value : String}

theorem Alone.name_bar (h : Alone encode r) (hvars : r.vars = single name value) :
    '|' ∉ name.toList := by
  intro hbar
  obtain ⟨as, bs, has⟩ := List.append_of_mem hbar
  have hsame := h { r with
    subject := r.subject ++ "|" ++ String.ofList as, vars := single (String.ofList bs) value } <| by
      rw [key_inj, hvars, varText_single, varText_single]
      simp [headText, has]
  have hlen := congrArg (fun r => r.subject.toList.length) hsame
  simp at hlen

theorem single_inj {name' value' : String} :
    (single name value : ExtTreeMap String (Var J)) = single name' value' ↔
      name = name' ∧ value = value' := by
  rw [← ExtTreeMap.toList_inj, toList_single, toList_single]
  simp

theorem Alone.name_equals (h : Alone encode r) (hvars : r.vars = single name value) :
    '=' ∉ name.toList := by
  intro heq
  obtain ⟨as, bs, has⟩ := List.append_of_mem heq
  have hsame := h { r with
    vars := single (String.ofList as) (String.ofList bs ++ "=" ++ value) } <| by
      rw [key_inj, hvars, varText_single, varText_single]
      simp [headText, has]
  have hname := (single_inj.mp ((congrArg Request.vars hsame).trans hvars)).1
  have hlen := congrArg (fun s => s.toList.length) hname
  simp [has] at hlen

theorem Alone.value_equals (h : Alone encode r) (hvars : r.vars = single name value) :
    '=' ∉ value.toList := by
  intro heq
  obtain ⟨as, bs, has⟩ := List.append_of_mem heq
  have hsame := h { r with
    vars := single (name ++ "=" ++ String.ofList as) (String.ofList bs) } <| by
      rw [key_inj, hvars, varText_single, varText_single]
      simp [headText, has]
  have hname := (single_inj.mp ((congrArg Request.vars hsame).trans hvars)).1
  have hlen := congrArg (fun s => s.toList.length) hname
  simp at hlen

/-- A value that is written like the text has its key. -/
theorem Alone.value_written (h : Alone encode r) (hvars : r.vars = single name value) (x : J) :
    encode x ≠ value := by
  rintro rfl
  have hlist : (({} : ExtTreeMap String (Var J)).insert name (.value x)).toList =
      [(name, .value x)] :=
    List.perm_singleton.mp
      (Lib.Table.toList_insert_perm ({} : ExtTreeMap String (Var J)) name (Var.value x))
  have hsame := h { r with vars := ({} : ExtTreeMap String (Var J)).insert name (.value x) } <| by
    rw [key_inj, hvars, varText_single, hlist]
    simp [headText, varText, Var.written]
  have hlists := congrArg ExtTreeMap.toList ((congrArg Request.vars hsame).trans hvars)
  rw [hlist, toList_single] at hlists
  simp at hlists

end Single

theorem Alone.readable (h : Alone encode r) : Readable encode r where
  endpoint := h.endpoint
  op := h.op
  subject := h.subject
  vars := by
    rcases h.vars with hvars | ⟨name, value, hvars⟩
    · exact .inl hvars
    · exact .inr ⟨name, value, hvars, h.name_bar hvars, h.name_equals hvars, h.value_equals hvars,
        h.value_written hvars⟩

/-! ## Reading a request off its key -/

/-- The text of variables is empty or has an equals sign. -/
theorem equals_mem_varText (encode : J → String) (vars : List (String × Var J)) :
    vars = [] ∨ '=' ∈ varText encode vars := by
  cases vars with
  | nil => exact .inl rfl
  | cons var vars =>
    right
    unfold varText
    rw [List.flatMap_cons]
    simp

/-- The last of three bars is where the variables begin. -/
theorem Readable.cut (h : Readable encode r) (hkey : r'.key encode = r.key encode) :
    r'.headText = r.headText ∧
      varText encode r'.vars.toList = varText encode r.vars.toList := by
  rcases cut_cases (key_inj.mp hkey) with hsame | ⟨m, hhead, -⟩ | ⟨m, hhead, htext⟩
  · exact hsame
  · -- the head has but two bars
    have hcount := congrArg (List.count '|') hhead
    have htwo : r.headText.count '|' = 2 := by
      simp [headText, List.count_eq_zero.mpr h.endpoint, List.count_eq_zero.mpr h.op,
        List.count_eq_zero.mpr h.subject]
    rw [htwo, List.count_append, List.count_cons_self] at hcount
    simp only [headText, List.count_append, List.count_cons_self] at hcount
    omega
  · -- a bar in the variables, and behind it there is no equals sign
    exfalso
    rcases h.vars with hvars | ⟨name, value, hvars, hbar, -, hvalue, -⟩
    · rw [hvars] at htext
      cases m <;> cases htext
    · rw [hvars, varText_single] at htext
      have htail : ∃ m', value.toList ++ [';'] = m' ++ '|' :: varText encode r'.vars.toList := by
        rcases List.append_eq_append_iff.mp htext with ⟨m', rfl, hm⟩ | ⟨m', hname, hm⟩
        · cases m' with
          | nil => cases (List.cons.inj hm).1
          | cons x m' => exact ⟨m', (List.cons.inj hm).2⟩
        · cases m' with
          | nil => cases (List.cons.inj hm).1
          | cons x m' =>
            cases (List.cons.inj hm).1
            exact absurd (hname ▸ List.mem_append_right _ List.mem_cons_self) hbar
      obtain ⟨m', hm'⟩ := htail
      rcases equals_mem_varText encode r'.vars.toList with hnil | hmem
      · rw [hnil] at hm'
        have hlast := congrArg List.getLast? hm'
        simp [varText] at hlast
      · have hmem' : '=' ∈ value.toList ++ [';'] :=
          hm' ▸ List.mem_append_right _ (List.mem_cons_of_mem _ hmem)
        rcases List.mem_append.mp hmem' with hmem' | hmem'
        · exact hvalue hmem'
        · cases List.mem_singleton.mp hmem'

/-- What is written for the variables tells them, if they are none or such a one. -/
theorem Readable.vars_eq (h : Readable encode r)
    (htext : varText encode r'.vars.toList = varText encode r.vars.toList) : r'.vars = r.vars := by
  rw [← ExtTreeMap.toList_inj]
  rcases h.vars with hvars | ⟨name, value, hvars, -, hname, hvalue, hwritten⟩
  · rw [hvars] at htext ⊢
    rcases equals_mem_varText encode r'.vars.toList with hnil | hmem
    · exact hnil
    · rw [htext] at hmem
      cases hmem
  · rw [hvars, varText_single] at htext
    rw [hvars, toList_single]
    have hone : (name.toList ++ '=' :: (value.toList ++ [';'])).count '=' = 1 := by
      simp [List.count_eq_zero.mpr hname, List.count_eq_zero.mpr hvalue]
    cases hl : r'.vars.toList with
    | nil =>
      rw [hl] at htext
      rw [← htext] at hone
      cases hone
    | cons var rest =>
      obtain ⟨name', v⟩ := var
      have hcons : varText encode ((name', v) :: rest) = name'.toList ++
          '=' :: ((v.written fun x => some (encode x)).toList ++ ';' :: varText encode rest) := by
        unfold varText
        rw [List.flatMap_cons]
        simp
      rw [hl, hcons] at htext
      rw [← htext, List.count_append, List.count_cons_self, List.count_append] at hone
      -- the one equals sign is behind the first name
      have hname' : '=' ∉ name'.toList := List.count_eq_zero.mp (by omega)
      obtain ⟨hnames, hvalues⟩ := cut_unique htext hname' hname
      have hrest : rest = [] := by
        refine (equals_mem_varText encode rest).resolve_right fun hmem => ?_
        have hpos := List.count_pos_iff.mpr (List.mem_cons_of_mem ';' hmem)
        omega
      subst hrest
      have hvalue' : (v.written fun x => some (encode x)) = value :=
        String.toList_inj.mp (List.append_cancel_right hvalues)
      rw [String.toList_inj.mp hnames]
      cases v with
      | text s => rw [show s = value from hvalue']
      | value x => exact absurd hvalue' (hwritten x)

theorem Readable.alone (h : Readable encode r) : Alone encode r := by
  intro r' hkey
  obtain ⟨hhead, htext⟩ := h.cut hkey
  have hcount := congrArg (List.count '|') hhead
  simp only [headText, List.count_append, List.count_cons_self,
    List.count_eq_zero.mpr h.endpoint, List.count_eq_zero.mpr h.op,
    List.count_eq_zero.mpr h.subject] at hcount
  obtain ⟨hendpoint, hrest⟩ :=
    cut_unique hhead (List.count_eq_zero.mp (by omega)) h.endpoint
  obtain ⟨hop, hsubject⟩ := cut_unique hrest (List.count_eq_zero.mp (by omega)) h.op
  exact Request.ext (String.toList_inj.mp hendpoint) (String.toList_inj.mp hop)
    (String.toList_inj.mp hsubject) (h.vars_eq htext)

/-- A request shares its key with no other exactly when it can be read off it. -/
theorem key_alone_iff (encode : J → String) (r : Request J) :
    (∀ r' : Request J, r'.key encode = r.key encode → r' = r) ↔ Readable encode r :=
  ⟨Alone.readable, Readable.alone⟩

/-- Requests without bars in their parts share a key only within an endpoint, an operation and a
subject. -/
theorem head_of_key (hendpoint : '|' ∉ r.endpoint.toList) (hop : '|' ∉ r.op.toList)
    (hsubject : '|' ∉ r.subject.toList) (hendpoint' : '|' ∉ r'.endpoint.toList)
    (hop' : '|' ∉ r'.op.toList) (hsubject' : '|' ∉ r'.subject.toList)
    (hkey : r'.key encode = r.key encode) :
    r'.endpoint = r.endpoint ∧ r'.op = r.op ∧ r'.subject = r.subject := by
  have htext := key_inj.mp hkey
  unfold headText at htext
  rw [List.append_assoc, List.append_assoc, List.cons_append, List.cons_append, List.append_assoc,
    List.append_assoc, List.cons_append, List.cons_append] at htext
  obtain ⟨hendpoints, hrest⟩ := cut_unique htext hendpoint' hendpoint
  obtain ⟨hops, hrest⟩ := cut_unique hrest hop' hop
  obtain ⟨hsubjects, -⟩ := cut_unique hrest hsubject' hsubject
  exact ⟨String.toList_inj.mp hendpoints, String.toList_inj.mp hops, String.toList_inj.mp hsubjects⟩

/-- Two variables, and one whose value goes on with the second. -/
theorem key_shared :
    ∃ r r' : Request Int, r ≠ r' ∧ r.key toString = r'.key toString := by
  refine ⟨⟨"ep", "GetItems", "u1", (single "folder" "a").insert "name" (.text "b")⟩,
    ⟨"ep", "GetItems", "u1", single "folder" "a;name=b"⟩, fun hsame => ?_, by rfl⟩
  have hlists := congrArg (fun r => r.vars.toList.length) hsame
  revert hlists
  decide +kernel

end Request

end ApsBudget.CacheKey
