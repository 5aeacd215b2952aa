import FusionLocalServer.Fusion.Link
import FusionLocalServer.Lib.Checks
import FusionLocalServer.Lib.Search
import FusionLocalServer.Lib.Sha256

/-!
# Pairings (`cmd/fls-helper/pairing.go`)

The servers that the helper may act for, each with the fingerprint of the certificate it had when
the user paired with it. A server that the system trusts by itself has none, nor has one that is
spoken to in the clear.

Who answers at an address is left open (`Peer`), and so is what the system's trust store says.
-/

namespace FusionLocalServer.Fusion

open Lib.Url (bytes)

/-! ## Origins -/

/-- `strings.ToLower`; of a text that is not ASCII, what it comes to is left open. -/
def lowerText (lower : List UInt8 → List UInt8) (bs : List UInt8) : List UInt8 :=
  if bs.all (· < 0x80) then Lib.Url.toLower bs else lower bs

/-- `NormalizeOrigin` -/
def normalizeOrigin (lower : List UInt8 → List UInt8) (raw : List UInt8) : List UInt8 :=
  match Lib.Url.parse (trimSpace raw) with
  | .error _ => []
  | .ok u =>
    if u.host = [] then []
    else
      let scheme := lowerText lower u.scheme
      if scheme ≠ bytes "http" ∧ scheme ≠ bytes "https" then []
      else scheme ++ bytes "://" ++ lowerText lower u.host

/-- Whether an origin is spoken to over TLS. -/
def overTLS (origin : List UInt8) : Bool :=
  match Lib.Url.parse origin with
  | .error _ => false
  | .ok u => u.scheme = bytes "https"

/-! ## Certificates -/

/-- Who answers at an address: the certificates it presents, its own first, whether the system's
trust store accepts its own by itself, and whether it does with the others. -/
structure Peer where
  certs : List (List UInt8)
  leafAccepted : Bool
  accepted : Bool
deriving DecidableEq

inductive PairError where
  | notAbsolute (raw : List UInt8)
  | url (e : Lib.Url.Error)
  | unreachable (origin : List UInt8)
  | noCertificate (origin : List UInt8)
  | read
  | notJSON
  | newer (version : Int)
  | write

/-- `probeCertificate`, with who answers, if anyone does. -/
def probeCertificate (origin : List UInt8) (peer : Option Peer) : Except PairError String :=
  match Lib.Url.parse origin with
  | .error e => .error (.url e)
  | .ok u =>
    if u.scheme ≠ bytes "https" then .ok ""
    else
      match peer with
      | none => .error (.unreachable origin)
      | some peer =>
        match peer.certs with
        | [] => .error (.noCertificate origin)
        | leaf :: _ => if peer.leafAccepted then .ok "" else .ok (Lib.Sha256.hexSum leaf)

/-! ## The file -/

/-- `pairingVersion` -/
def pairingVersion : Int := 1

structure PairedServer where
  origin : List UInt8
  fingerprint : String
  pairedAt : Int
deriving DecidableEq

structure PairingFile where
  version : Int
  servers : List PairedServer
deriving DecidableEq

inductive Stored where
  | absent
  | unreadable
  | undecodable
  | file (pf : PairingFile)
deriving DecidableEq

/-- `loadPairings` -/
def loadPairings : Stored → Except PairError PairingFile
  | .absent => .ok { version := pairingVersion, servers := [] }
  | .unreadable => .error .read
  | .undecodable => .error .notJSON
  | .file pf => if pairingVersion < pf.version then .error (.newer pf.version) else .ok pf

namespace PairingFile

/-- The server is paired with, or paired with anew. -/
def pair (pf : PairingFile) (entry : PairedServer) : PairingFile :=
  match pf.servers.findIdx? (·.origin = entry.origin) with
  | some i => { pf with servers := pf.servers.set i entry }
  | none => { pf with servers := pf.servers ++ [entry] }

def unpair (pf : PairingFile) (origin : List UInt8) : PairingFile :=
  { pf with servers := pf.servers.filter fun s => s.origin ≠ origin }

/-- `savePairings` -/
def saved (pf : PairingFile) : Stored := .file { pf with version := pairingVersion }

end PairingFile

/-- `trusted` -/
def trusted (lower : List UInt8 → List UInt8) (stored : Stored) (rawServer : List UInt8) :
    Option PairedServer :=
  let origin := normalizeOrigin lower rawServer
  if origin = [] then none
  else
    match loadPairings stored with
    | .error _ => none
    | .ok pf => pf.servers.find? (·.origin = origin)

/-- `strings.ToLower` of a fingerprint. -/
def lowerHex (fingerprint : String) : String := String.ofList (fingerprint.toList.map Char.toLower)

/-- A request of the client of `httpClientFor` gets through to who answers at the origin. -/
def PairedServer.connects (server : PairedServer) (peer : Peer) : Bool :=
  if !overTLS server.origin then true
  else if server.fingerprint = "" then peer.accepted
  else
    match peer.certs with
    | [] => false
    | leaf :: _ => Lib.Sha256.hexSum leaf = lowerHex server.fingerprint

/-! ## What a pairing vouches for -/

/-- Who answers now is who answered when the user paired with the server, as far as one can tell:
they have the same certificate, or the system trusts both. -/
def Vouched (origin : List UInt8) (paired peer : Peer) : Prop :=
  overTLS origin = true →
    if paired.leafAccepted then peer.accepted = true
    else ∃ leaf leaf', paired.certs.head? = some leaf ∧ peer.certs.head? = some leaf' ∧
      Lib.Sha256.hexSum leaf' = Lib.Sha256.hexSum leaf

theorem lowerHex_hexSum (data : List UInt8) :
    lowerHex (Lib.Sha256.hexSum data) = Lib.Sha256.hexSum data := by
  have hdigit : ∀ n < 16, (Nat.digitChar n).toLower = Nat.digitChar n := by decide
  have hlower : ∀ c ∈ (Lib.Sha256.hexSum data).toList, c.toLower = c := by
    intro c hc
    unfold Lib.Sha256.hexSum at hc
    rw [String.toList_ofList] at hc
    obtain ⟨w, -, hw⟩ := List.mem_flatMap.mp hc
    obtain ⟨i, -, rfl⟩ := List.mem_map.mp hw
    exact hdigit _ (Nat.mod_lt _ (by decide))
  rw [lowerHex, List.map_congr_left hlower, List.map_id', String.ofList_toList]

theorem hexSum_ne_empty (data : List UInt8) : Lib.Sha256.hexSum data ≠ "" := by
  intro h
  have hnil := congrArg String.toList h
  unfold Lib.Sha256.hexSum at hnil
  rw [String.toList_ofList] at hnil
  cases hnil

/-- The certificate that was taken when the user paired is the one that is asked for. -/
theorem PairedServer.vouched {server : PairedServer} {paired peer : Peer}
    (hprobe : probeCertificate server.origin (some paired) = .ok server.fingerprint)
    (hconnects : server.connects peer = true) : Vouched server.origin paired peer := by
  intro htls
  unfold PairedServer.connects at hconnects
  rw [htls, Bool.not_true, if_neg Bool.false_ne_true] at hconnects
  unfold probeCertificate at hprobe
  unfold overTLS at htls
  split at htls
  · cases htls
  · next u hu =>
    rw [hu] at hprobe
    dsimp only at hprobe
    rw [if_neg (not_not.mpr (of_decide_eq_true htls))] at hprobe
    split at hprobe
    · cases hprobe
    next leaf rest hcerts =>
    cases hleaf : paired.leafAccepted with
    | true =>
      rw [if_pos hleaf] at hprobe
      rw [← Except.ok.inj hprobe] at hconnects
      simpa using hconnects
    | false =>
      rw [hleaf, if_neg Bool.false_ne_true] at hprobe
      rw [← Except.ok.inj hprobe, if_neg (hexSum_ne_empty leaf)] at hconnects
      rw [if_neg Bool.false_ne_true]
      split at hconnects
      · cases hconnects
      · next leaf' rest' hcerts' =>
        refine ⟨leaf, leaf', by rw [hcerts]; rfl, by rw [hcerts']; rfl, ?_⟩
        rw [of_decide_eq_true hconnects, lowerHex_hexSum]

/-! ## What the edits do -/

namespace PairingFile

variable {pf : PairingFile}

/-- No origin is there twice. -/
def Distinct (pf : PairingFile) : Prop := (pf.servers.map (·.origin)).Nodup

theorem mem_of_mem_pair {entry s : PairedServer} (hs : s ∈ (pf.pair entry).servers) :
    s = entry ∨ s ∈ pf.servers := by
  unfold pair at hs
  split at hs
  · exact (List.mem_or_eq_of_mem_set hs).symm
  · rcases List.mem_append.mp hs with hold | hnew
    · exact .inr hold
    · exact .inl (List.mem_singleton.mp hnew)

theorem mem_pair (hdistinct : pf.Distinct) {entry s : PairedServer} (hs : s ∈ (pf.pair entry).servers) :
    s = entry ∨ (s ∈ pf.servers ∧ s.origin ≠ entry.origin) := by
  unfold pair at hs
  split at hs
  · next i hi =>
    obtain ⟨old, hold, hsame⟩ := Lib.findIdx_ok hi
    obtain ⟨j, hj⟩ := List.mem_iff_getElem?.mp hs
    rcases Lib.getElem?_set_cases hj with ⟨-, rfl⟩ | ⟨hji, hget⟩
    · exact .inl rfl
    · refine .inr ⟨List.mem_of_getElem? hget, fun horigin => hji ?_⟩
      -- two servers of one origin are in one place
      have hjmap : (pf.servers.map (·.origin))[j]? = some entry.origin := by
        rw [List.getElem?_map, hget, Option.map_some, horigin]
      have himap : (pf.servers.map (·.origin))[i]? = some entry.origin := by
        rw [List.getElem?_map, hold, Option.map_some, of_decide_eq_true hsame]
      have hlt := (List.getElem?_eq_some_iff.mp hjmap).1
      exact (List.getElem?_inj hlt hdistinct).mp (hjmap.trans himap.symm)
  · next hnone =>
    rcases List.mem_append.mp hs with hold | hnew
    · exact .inr ⟨hold, of_decide_eq_false (List.findIdx?_eq_none_iff.mp hnone s hold)⟩
    · exact .inl (List.mem_singleton.mp hnew)

theorem distinct_pair (hdistinct : pf.Distinct) (entry : PairedServer) : (pf.pair entry).Distinct := by
  unfold pair Distinct
  split
  · next i hi =>
    obtain ⟨old, hold, hsame⟩ := Lib.findIdx_ok hi
    obtain ⟨hlt, rfl⟩ := List.getElem?_eq_some_iff.mp hold
    have hlt' : i < (pf.servers.map (·.origin)).length := by rwa [List.length_map]
    have hplace : (pf.servers.map (·.origin))[i] = entry.origin := by
      rw [List.getElem_map, of_decide_eq_true hsame]
    dsimp only
    rw [List.map_set, ← hplace, List.set_getElem_self]
    exact hdistinct
  · next hnone =>
    dsimp only
    rw [List.map_append, List.map_singleton]
    refine List.nodup_append.mpr ⟨hdistinct, List.nodup_cons.mpr ⟨List.not_mem_nil, List.nodup_nil⟩, fun a ha b hb => ?_⟩
    obtain ⟨s, hs, rfl⟩ := List.mem_map.mp ha
    rw [List.mem_singleton.mp hb]
    exact of_decide_eq_false (List.findIdx?_eq_none_iff.mp hnone s hs)

theorem mem_unpair {origin : List UInt8} {s : PairedServer} (hs : s ∈ (pf.unpair origin).servers) :
    s ∈ pf.servers ∧ s.origin ≠ origin := by
  obtain ⟨hmem, hother⟩ := List.mem_filter.mp hs
  exact ⟨hmem, of_decide_eq_true hother⟩

theorem distinct_unpair (hdistinct : pf.Distinct) (origin : List UInt8) :
    (pf.unpair origin).Distinct :=
  hdistinct.sublist (List.filter_sublist.map _)

end PairingFile

end FusionLocalServer.Fusion
