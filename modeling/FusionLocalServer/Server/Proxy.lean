import FusionLocalServer.Lib.ByteText
import FusionLocalServer.Lib.Run

/-!
# The trusted-proxy boundary (`server/proxy.go`)

The address that a request is put down to. The forwarding header is believed only of a trusted peer,
and is walked from the right to the first address that is not a trusted hop. What a text is as an
address and how an address is written (`netip.ParseAddr`, `Addr.String`) are parameters.

- `Forwards` is what a proxy does to the header: one more address, as a line or as an entry.
- `walkLines_eq`: the walk finds the last entry that is the address of no trusted hop.
- `clientIP_spec`: what a client writes into the header is of no effect.
-/

namespace FusionLocalServer.Server

open Lib.ByteText
open Lib (Run always)

/-! ## Addresses -/

/-- A valid `netip.Addr`. -/
inductive Addr where
  | v4 (bits : BitVec 32)
  | v6 (bits : BitVec 128) (zone : Bytes)
deriving DecidableEq

namespace Addr

def is4In6 : Addr → Bool
  | v4 _ => false
  | v6 bits _ => bits >>> 32 = 0xffff#128

/-- An IPv4 address that is written as an IPv6 one. -/
def unmap (a : Addr) : Addr :=
  match a with
  | v4 bits => v4 bits
  | v6 bits zone => if (v6 bits zone).is4In6 then v4 (bits.setWidth 32) else v6 bits zone

def isLoopback (a : Addr) : Bool :=
  match a.unmap with
  | v4 bits => bits >>> 24 = 127#32
  | v6 bits _ => bits = 1#128

end Addr

/-- A valid `netip.Prefix`. -/
structure Prefix where
  addr : Addr
  bits : Nat
deriving DecidableEq

/-- A prefix contains no address with a zone. -/
def Prefix.contains (p : Prefix) (a : Addr) : Bool :=
  match p.addr, a with
  | .v4 net, .v4 ip => (ip ^^^ net) >>> (32 - p.bits) = 0#32
  | .v6 net _, .v6 ip zone => zone.isEmpty && (ip ^^^ net) >>> (128 - p.bits) = 0#128
  | _, _ => false

/-! ## The boundary -/

structure Config where
  trustedProxies : List Prefix

/-- What is read of a request: the lines of `X-Forwarded-For` as they came. -/
structure Request where
  remoteAddr : Bytes
  forwardedFor : List Bytes

/-- Loopback, or in one of the prefixes. -/
def Config.trustedAddr (s : Config) (a : Addr) : Bool :=
  let a := a.unmap
  if a.isLoopback then true else s.trustedProxies.any (·.contains a)

def colon : UInt8 := 0x3a

def brackets : Bytes := [0x5b, 0x5d]

/-- `net.SplitHostPort`, of which the host is kept. -/
def splitHost (hostport : Bytes) : Option Bytes :=
  if colon ∉ hostport then none
  else
    -- the port starts after the last colon
    let i := hostport.length - 1 - hostport.reverse.idxOf colon
    if hostport.head? = some 0x5b then
      let stop := hostport.idxOf 0x5d
      if 0x5d ∉ hostport ∨ stop + 1 ≠ i then none
      else if 0x5b ∈ hostport.drop 1 ∨ 0x5d ∈ hostport.drop (stop + 1) then none
      else some ((hostport.take stop).drop 1)
    else if colon ∈ hostport.take i ∨ 0x5b ∈ hostport ∨ 0x5d ∈ hostport then none
    else some (hostport.take i)

section Walk

variable (parseAddr : Bytes → Option Addr) (string : Addr → Bytes) (s : Config)

def peerAddr (r : Request) : Option Addr :=
  parseAddr (trim ((splitHost r.remoteAddr).getD r.remoteAddr) brackets)

def trustedPeer (r : Request) : Bool :=
  match peerAddr parseAddr r with
  | some a => s.trustedAddr a
  | none => false

/-- The parts of a line, the last one first. -/
def walkParts : List Bytes → Option Addr
  | [] => none
  | part :: parts =>
    match parseAddr (trim (trimSpace part) brackets) with
    | none => walkParts parts
    | some a => if ¬ s.trustedAddr a then some a else walkParts parts

/-- The lines, the last one first. -/
def walkLines : List Bytes → Option Addr
  | [] => none
  | line :: lines =>
    match walkParts parseAddr s (line.splitOn comma).reverse with
    | some a => some a
    | none => walkLines lines

/-- The peer, as what it is logged and metered. -/
def peerIP (r : Request) : Bytes :=
  match peerAddr parseAddr r with
  | some a => string a.unmap
  | none => r.remoteAddr

def clientIP (r : Request) : Bytes :=
  if trustedPeer parseAddr s r then
    match walkLines parseAddr s r.forwardedFor.reverse with
    | some a => string a.unmap
    | none => peerIP parseAddr string r
  else peerIP parseAddr string r

end Walk

/-! ## The walk -/

section Entries

variable (parseAddr : Bytes → Option Addr) (s : Config)

/-- The address that an entry of the header is. -/
def addrOf (entry : Bytes) : Option Addr := parseAddr (trim entry brackets)

/-- The address that the walk stops at. -/
def stopAt (entry : Bytes) : Option Addr :=
  (addrOf parseAddr entry).filter fun a => ¬ s.trustedAddr a

theorem walkParts_eq (parts : List Bytes) :
    walkParts parseAddr s parts = (parts.map trimSpace).findSome? (stopAt parseAddr s) := by
  induction parts with
  | nil => rfl
  | cons part parts ih =>
    unfold walkParts
    rw [List.map_cons, List.findSome?_cons, ih]
    unfold stopAt addrOf
    cases parseAddr (trim (trimSpace part) brackets) with
    | none => rfl
    | some a =>
      rw [Option.filter_some]
      by_cases h : s.trustedAddr a = true
      · simp [h]
      · simp [h]

/-- **The walk finds the last entry** that is the address of no trusted hop. -/
theorem walkLines_eq (lines : List Bytes) :
    walkLines parseAddr s lines.reverse =
      (entries lines).reverse.findSome? (stopAt parseAddr s) := by
  induction lines using List.reverseRecOn with
  | nil => rfl
  | append_singleton lines line ih =>
    rw [List.reverse_append, List.reverse_singleton, List.singleton_append]
    unfold walkLines
    rw [walkParts_eq, ih]
    unfold entries
    rw [List.flatMap_append, List.flatMap_singleton, List.reverse_append, List.findSome?_append,
      ← List.map_reverse]
    cases ((line.splitOn comma).reverse.map trimSpace).findSome? (stopAt parseAddr s) <;> rfl

end Entries

/-! ## The chain of proxies -/

/-- A proxy adds the address of the one it was asked by: on a line of its own, behind the last line,
or behind all lines joined to one. -/
inductive Forwards (lines : List Bytes) (text : Bytes) : List Bytes → Prop
  | line : Forwards lines text (lines ++ [text])
  | joined {before : List Bytes} {last sep : Bytes} :
      lines = before ++ [last] → IsSep sep → Forwards lines text (before ++ [last ++ sep ++ text])
  | merged {sep : Bytes} : lines ≠ [] → IsSep sep →
      Forwards lines text [sep.intercalate lines ++ sep ++ text]

theorem Forwards.entries {lines lines' : List Bytes} {text : Bytes} (h : Forwards lines text lines')
    (htext : comma ∉ text) : entries lines' = entries lines ++ [trimSpace text] := by
  cases h with
  | line => exact entries_line htext
  | joined hlines hsep =>
    subst hlines
    exact entries_joined hsep htext
  | merged hne hsep => exact entries_merged hsep hne htext

/-- What the proxies add is behind what the client supplied. -/
theorem entries_run {supplied lines texts : List Bytes}
    (h : Run (fun lines text lines' => Forwards lines text lines') always supplied texts lines)
    (htexts : ∀ text ∈ texts, comma ∉ text) :
    entries lines = entries supplied ++ texts.map trimSpace := by
  induction h with
  | nil => simp
  | snoc _ _ hstep ih =>
    have hlast := htexts _ (List.mem_append_right _ (List.mem_singleton_self _))
    rw [hstep.entries hlast, ih fun text ht => htexts text (List.mem_append_left _ ht),
      List.map_append, List.append_assoc]
    rfl

/-- A text is the address of a hop: one entry, that is read as the address. -/
structure Names (parseAddr : Bytes → Option Addr) (text : Bytes) (a : Addr) : Prop where
  entry : comma ∉ text
  addr : addrOf parseAddr (trimSpace text) = some a

section Spec

variable (parseAddr : Bytes → Option Addr) (string : Addr → Bytes) (s : Config)

/-- Behind the address of no trusted hop there are only those of trusted ones. -/
theorem findSome_chain {before : List Bytes} {text : Bytes} {hops : List Bytes} {client : Addr}
    (hclient : Names parseAddr text client) (hnot : s.trustedAddr client = false)
    (hhops : ∀ hop ∈ hops, ∃ a, Names parseAddr hop a ∧ s.trustedAddr a = true) :
    (before ++ (text :: hops).map trimSpace).reverse.findSome? (stopAt parseAddr s) =
      some client := by
  have hskip : (hops.map trimSpace).reverse.findSome? (stopAt parseAddr s) = none := by
    refine List.findSome?_eq_none_iff.mpr fun entry hentry => ?_
    obtain ⟨hop, hhop, rfl⟩ := List.mem_map.mp (List.mem_reverse.mp hentry)
    obtain ⟨a, ha, htrusted⟩ := hhops hop hhop
    rw [stopAt, ha.addr]
    simp [htrusted]
  have hstop : stopAt parseAddr s (trimSpace text) = some client := by
    rw [stopAt, hclient.addr]
    simp [hnot]
  rw [List.map_cons, List.reverse_append, List.reverse_cons, List.append_assoc,
    List.findSome?_append, hskip, List.singleton_append, List.findSome?_cons, hstop]
  rfl

/-- **The client has no say in its address.** Of a trusted peer it is the one that the first of the
proxies saw, whatever the client supplied, and of any other peer it is the peer's. -/
theorem clientIP_spec (r : Request) :
    (trustedPeer parseAddr s r = true → ∀ supplied text hops client,
      Run (fun lines text lines' => Forwards lines text lines') always supplied (text :: hops)
        r.forwardedFor →
      Names parseAddr text client → s.trustedAddr client = false →
      (∀ hop ∈ hops, ∃ a, Names parseAddr hop a ∧ s.trustedAddr a = true) →
      clientIP parseAddr string s r = string client.unmap) ∧
    (trustedPeer parseAddr s r = false →
      clientIP parseAddr string s r = peerIP parseAddr string r) := by
  constructor
  · intro hpeer supplied text hops client hrun hclient hnot hhops
    have htexts : ∀ t ∈ text :: hops, comma ∉ t := by
      intro t ht
      rcases List.mem_cons.mp ht with rfl | ht
      · exact hclient.entry
      · obtain ⟨a, ha, -⟩ := hhops t ht
        exact ha.entry
    unfold clientIP
    rw [if_pos hpeer, walkLines_eq, entries_run hrun htexts,
      findSome_chain parseAddr s hclient hnot hhops]
  · intro hpeer
    unfold clientIP
    rw [hpeer]
    rfl

end Spec

/-! ### A header that a client began -/

/-- A number from 0 to 255, without a leading zero. -/
def parseOctet (bs : Bytes) : Option (BitVec 32) :=
  let n := bs.foldl (fun n b => 10 * n + (b.toNat - 48)) 0
  if bs = [] ∨ ¬ bs.all (fun b => 0x30 ≤ b && b ≤ 0x39) = true ∨ 3 < bs.length ∨ 255 < n ∨
    (bs.head? = some 0x30 ∧ 1 < bs.length) then none
  else some (BitVec.ofNat 32 n)

/-- The addresses that are four numbers. -/
def parseIPv4 (bs : Bytes) : Option Addr :=
  match (bs.splitOn 0x2e).map parseOctet with
  | [some a, some b, some c, some d] => some (.v4 (a <<< 24 ||| b <<< 16 ||| c <<< 8 ||| d))
  | _ => none

def text (s : String) : Bytes := s.toUTF8.toList

def stringIPv4 : Addr → Bytes
  | .v4 bits => text (".".intercalate
      ([24, 16, 8, 0].map fun n => toString ((bits >>> n).setWidth 8).toNat))
  | .v6 _ _ => []

/-- Two entries and two commas of the client's are of no effect. -/
theorem clientIP_spec_forged :
    clientIP parseIPv4 stringIPv4 ⟨[⟨.v4 0x0a010200#32, 24⟩]⟩
      ⟨text "127.0.0.1:5555", [text "1.2.3.4, 10.1.2.9", text ",,, 198.51.100.23", text "10.1.2.9"]⟩ =
        text "198.51.100.23" := by
  have hclient : Names parseIPv4 (text "198.51.100.23") (.v4 0xc6336417#32) :=
    ⟨by decide +kernel, by decide +kernel⟩
  have hjoined : Forwards [text "1.2.3.4, 10.1.2.9", text ",,"] (text "198.51.100.23")
      ([text "1.2.3.4, 10.1.2.9"] ++ [text ",," ++ [comma, space] ++ text "198.51.100.23"]) :=
    .joined rfl (.inr rfl)
  have hline : text ",," ++ [comma, space] ++ text "198.51.100.23" =
      text ",,, 198.51.100.23" := by decide +kernel
  rw [hline] at hjoined
  have hrun : Run (fun lines text lines' => Forwards lines text lines') always
      [text "1.2.3.4, 10.1.2.9", text ",,"] [text "198.51.100.23", text "10.1.2.9"]
      ([text "1.2.3.4, 10.1.2.9", text ",,, 198.51.100.23"] ++ [text "10.1.2.9"]) :=
    .cons trivial hjoined (.single trivial .line)
  have hspec := (clientIP_spec parseIPv4 stringIPv4 ⟨[⟨.v4 0x0a010200#32, 24⟩]⟩
    ⟨text "127.0.0.1:5555", _⟩).1 (by decide +kernel) _ _ _ _ hrun hclient (by decide +kernel)
      fun hop hhop => ⟨.v4 0x0a010209#32, ?_, by decide +kernel⟩
  · exact hspec.trans (by decide +kernel)
  · rw [List.mem_singleton.mp hhop]
    exact ⟨by decide +kernel, by decide +kernel⟩

end FusionLocalServer.Server
