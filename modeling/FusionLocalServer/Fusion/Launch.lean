import FusionLocalServer.Fusion.Pairing
import FusionLocalServer.Fusion.Tickets
import FusionLocalServer.Lib.Run

/-!
# Launches (`cmd/fls-helper/launch.go`)

Any page can have the system start the helper with a launch URL; what keeps it from driving Fusion
is the list of pairings. The commands that pair and unpair and the launches are processes of their
own at one file. Their steps come in any order, and who answers at an address may change between
any two of them.

- `asked_vouched`: Fusion is asked only for what came from a server that the user paired with and
  that has the certificate it had then, and the outcome goes only to such a server.
- `trusts_latest`: a launch trusts a server as the latest command for its origin left it, where no
  command reads the file while another is about to write it.
- `unpaired_trusted`: otherwise a server that was unpaired may be trusted again.
-/

namespace FusionLocalServer.Fusion.Launch

open Lib
open Lib.Url (bytes)

/-! ## Histories -/

/-- Everything in a history, which has the newest first, fits what was before it. -/
def Told {α : Type} (fits : List α → α → Prop) : List α → Prop
  | [] => True
  | e :: log => fits log e ∧ Told fits log

theorem Told.fits {α : Type} {fits : List α → α → Prop} {e : α} {earlier : List α} :
    ∀ {later : List α}, Told fits (later ++ e :: earlier) → fits earlier e
  | [], h => h.1
  | _ :: _, h => Told.fits h.2

/-! ## Calls -/

/-- What a server hands out for a ticket. -/
structure TicketPayload where
  action : List UInt8
  fileID : List UInt8
deriving DecidableEq

inductive Reply where
  /-- Another status than 200. -/
  | declined
  | notJSON
  | payload (p : TicketPayload)

inductive RedeemError where
  | unreachable
  | declined
  | notJSON
  | noDocument

/-- `redeemTicket`, with who answers, if anyone does. -/
def redeemTicket (server : PairedServer) (peer : Option Peer) (reply : Reply) :
    Except RedeemError TicketPayload :=
  if !peer.any server.connects then .error .unreachable
  else
    match reply with
    | .declined => .error .declined
    | .notJSON => .error .notJSON
    | .payload p => if p.fileID = [] then .error .noDocument else .ok p

/-- What comes of a call to Fusion, where it does not come to what was asked. -/
inductive McpError where
  | unreachable
  | noActiveDesign
  | other

/-- `Classify` -/
def classify : Option McpError → String
  | none => ""
  | some .unreachable => Fusion.codeNotRunning
  | some .noActiveDesign => Fusion.codeNoActiveDesign
  | some .other => Fusion.codeFailed

/-- `CheckHub`, with whether the project is one of Fusion's hub or its id is not read. -/
def checkHub : Except McpError Bool → String
  | .error e => classify (some e)
  | .ok true => ""
  | .ok false => Fusion.codeWrongHub

/-! ## Processes -/

/-- What a command is to do to the file. -/
inductive Edit where
  | pair (server : PairedServer)
  | unpair (origin : List UInt8)
deriving DecidableEq

def Edit.apply (pf : PairingFile) : Edit → PairingFile
  | .pair server => pf.pair server
  | .unpair origin => pf.unpair origin

inductive Command where
  /-- It has yet to read the file. -/
  | loading (edit : Edit)
  /-- It has read the file and has yet to write it. -/
  | saving (edit : Edit) (pf : PairingFile)
  | exited

def Command.saves : Command → Bool
  | .saving _ _ => true
  | .loading _ | .exited => false

/-- Where `runLaunch` stands. -/
inductive Phase where
  | parsed (link : Link)
  | trusted (link : Link) (server : PairedServer)
  | redeemed (link : Link) (server : PairedServer) (payload : TicketPayload)
  /-- Fusion is on the right hub. -/
  | checked (link : Link) (server : PairedServer) (payload : TicketPayload)
  | reporting (link : Link) (server : PairedServer) (code : String)
  | exited (code : Nat)

inductive Entry where
  /-- The user pairs with an origin, at which this is who answers. -/
  | vouched (origin : List UInt8) (peer : Option Peer)
  /-- The file is written. -/
  | wrote (edit : Edit)
  | trusts (launch : Nat) (server : PairedServer)
  | redeemed (launch : Nat) (origin : List UInt8) (peer : Option Peer) (payload : TicketPayload)
  /-- Fusion is asked to do something to a document. -/
  | asked (launch : Nat) (action fileID : List UInt8)
  | reported (launch : Nat) (origin : List UInt8) (peer : Option Peer) (code : String)
deriving DecidableEq

structure World where
  stored : Stored := .absent
  commands : List Command := []
  launches : List Phase := []
  /-- History, the newest first. -/
  log : List Entry := []

inductive Event where
  | pair (raw : List UInt8) (peer : Option Peer) (pairedAt : Int)
  | unpair (raw : List UInt8)
  | load (command : Nat)
  | save (command : Nat) (ok : Bool)
  | launch (raw : List UInt8)
  | trust (launch : Nat)
  | redeem (launch : Nat) (peer : Option Peer) (reply : Reply)
  | checkHub (launch : Nat) (answer : Except McpError Bool)
  | perform (launch : Nat) (answer : Option McpError)
  | report (launch : Nat) (peer : Option Peer)
  /-- The file goes, or can be read no more. -/
  | lose (left : Stored)

namespace World

def note (w : World) (e : Entry) : World := { w with log := e :: w.log }

def command (w : World) (edit : Edit) : World :=
  { w with commands := w.commands ++ [.loading edit] }

def setCommand (w : World) (i : Nat) (c : Command) : World :=
  { w with commands := w.commands.set i c }

def setLaunch (w : World) (i : Nat) (p : Phase) : World :=
  { w with launches := w.launches.set i p }

/-- The action of the ticket, or that of the URL where the ticket has none that there is. -/
def action (link : Link) (payload : TicketPayload) : List UInt8 :=
  if ValidAction payload.action then payload.action else link.action

def step (lower : List UInt8 → List UInt8) (w : World) : Event → Option World
  | .pair raw peer pairedAt =>
    let origin := normalizeOrigin lower raw
    if origin = [] then some w
    else
      match probeCertificate origin peer with
      | .error _ => some w
      | .ok fingerprint =>
        some ((w.note (.vouched origin peer)).command (.pair { origin, fingerprint, pairedAt }))
  | .unpair raw =>
    let origin := normalizeOrigin lower raw
    if origin = [] then some w else some (w.command (.unpair origin))
  | .load i =>
    match w.commands[i]? with
    | some (.loading edit) =>
      match loadPairings w.stored with
      | .error _ => some (w.setCommand i .exited)
      | .ok pf => some (w.setCommand i (.saving edit pf))
    | _ => none
  | .save i ok =>
    match w.commands[i]? with
    | some (.saving edit pf) =>
      if ok then
        some ({ w.note (.wrote edit) with stored := (edit.apply pf).saved }.setCommand i .exited)
      else some (w.setCommand i .exited)
    | _ => none
  | .launch raw =>
    match parse raw with
    | .error _ => some { w with launches := w.launches ++ [.exited 2] }
    | .ok link => some { w with launches := w.launches ++ [.parsed link] }
  | .trust i =>
    match w.launches[i]? with
    | some (.parsed link) =>
      match trusted lower w.stored link.server with
      | none => some (w.setLaunch i (.exited 1))
      | some server => some ((w.note (.trusts i server)).setLaunch i (.trusted link server))
    | _ => none
  | .redeem i peer reply =>
    match w.launches[i]? with
    | some (.trusted link server) =>
      match redeemTicket server peer reply with
      | .error _ => some (w.setLaunch i (.exited 1))
      | .ok payload =>
        some ((w.note (.redeemed i server.origin peer payload)).setLaunch i
          (.redeemed link server payload))
    | _ => none
  | .checkHub i answer =>
    match w.launches[i]? with
    | some (.redeemed link server payload) =>
      if checkHub answer = "" then some (w.setLaunch i (.checked link server payload))
      else some (w.setLaunch i (.reporting link server (checkHub answer)))
    | _ => none
  | .perform i answer =>
    match w.launches[i]? with
    | some (.checked link server payload) =>
      if ValidAction (action link payload) then
        some ((w.note (.asked i (action link payload) payload.fileID)).setLaunch i
          (.reporting link server (classify answer)))
      else some (w.setLaunch i (.reporting link server Fusion.codeFailed))
    | _ => none
  | .report i peer =>
    match w.launches[i]? with
    | some (.reporting _ server code) =>
      let exit := Phase.exited (if code = "" then 0 else 1)
      if peer.any server.connects then
        some ((w.note (.reported i server.origin peer code)).setLaunch i exit)
      else some (w.setLaunch i exit)
    | _ => none
  | .lose left =>
    match left with
    | .file _ => none
    | left => some { w with stored := left }

end World

/-! ## What a step does -/

/-- What a step can come to. -/
inductive Moves (lower : List UInt8 → List UInt8) (w : World) (e : Event) : World → Prop where
  | stays : Moves lower w e w
  | pairs {server : PairedServer} {peer : Option Peer}
      (hprobe : probeCertificate server.origin peer = .ok server.fingerprint) :
      Moves lower w e ((w.note (.vouched server.origin peer)).command (.pair server))
  | unpairs (origin : List UInt8) : Moves lower w e (w.command (.unpair origin))
  | leaves (i : Nat) : Moves lower w e (w.setCommand i .exited)
  | loads {i : Nat} {edit : Edit} {pf : PairingFile} (he : e = .load i)
      (hi : w.commands[i]? = some (.loading edit)) (hload : loadPairings w.stored = .ok pf) :
      Moves lower w e (w.setCommand i (.saving edit pf))
  | saves {i : Nat} {edit : Edit} {pf : PairingFile}
      (hi : w.commands[i]? = some (.saving edit pf)) :
      Moves lower w e
        ({ w.note (.wrote edit) with stored := (edit.apply pf).saved }.setCommand i .exited)
  | rejects : Moves lower w e { w with launches := w.launches ++ [.exited 2] }
  | starts {link : Link} (hvalid : ValidAction link.action) :
      Moves lower w e { w with launches := w.launches ++ [.parsed link] }
  | exits (i code : Nat) : Moves lower w e (w.setLaunch i (.exited code))
  | trusts {i : Nat} {link : Link} {server : PairedServer}
      (hi : w.launches[i]? = some (.parsed link))
      (htrusted : trusted lower w.stored link.server = some server) :
      Moves lower w e ((w.note (.trusts i server)).setLaunch i (.trusted link server))
  | redeems {i : Nat} {link : Link} {server : PairedServer} {peer : Option Peer}
      {payload : TicketPayload} (hi : w.launches[i]? = some (.trusted link server))
      (hconnects : peer.any server.connects = true) (hfile : payload.fileID ≠ []) :
      Moves lower w e ((w.note (.redeemed i server.origin peer payload)).setLaunch i
        (.redeemed link server payload))
  | checks {i : Nat} {link : Link} {server : PairedServer} {payload : TicketPayload}
      (hi : w.launches[i]? = some (.redeemed link server payload)) :
      Moves lower w e (w.setLaunch i (.checked link server payload))
  | fails {i : Nat} {p : Phase} {link : Link} {server : PairedServer} {payload : TicketPayload}
      {code : String} (hi : w.launches[i]? = some p)
      (hp : p = .redeemed link server payload ∨ p = .checked link server payload)
      (hcode : code ≠ "") : Moves lower w e (w.setLaunch i (.reporting link server code))
  | asks {i : Nat} {link : Link} {server : PairedServer} {payload : TicketPayload} (code : String)
      (hi : w.launches[i]? = some (.checked link server payload)) :
      Moves lower w e
        ((w.note (.asked i (World.action link payload) payload.fileID)).setLaunch i
          (.reporting link server code))
  | reports {i : Nat} {link : Link} {server : PairedServer} {code : String} {peer : Option Peer}
      (exit : Nat) (hi : w.launches[i]? = some (.reporting link server code))
      (hconnects : peer.any server.connects = true) :
      Moves lower w e ((w.note (.reported i server.origin peer code)).setLaunch i (.exited exit))
  | loses {stored : Stored} (hnone : ∀ pf, stored ≠ .file pf) : Moves lower w e { w with stored }

variable {lower : List UInt8 → List UInt8} {log : List Entry} {server : PairedServer}
  {w w' : World} {e : Event} {es : List Event}

theorem redeemTicket_ok {peer : Option Peer} {reply : Reply} {payload : TicketPayload}
    (h : redeemTicket server peer reply = .ok payload) :
    peer.any server.connects = true ∧ payload.fileID ≠ [] := by
  unfold redeemTicket at h
  split at h
  · cases h
  · next hconnects =>
    split at h
    · cases h
    · cases h
    · split at h
      · cases h
      · next hfile =>
        cases h
        exact ⟨by simpa using hconnects, hfile⟩

theorem moves_of_step (hstep : w.step lower e = some w') : Moves lower w e w' := by
  cases e with
  | pair raw peer pairedAt =>
    simp only [World.step] at hstep
    split at hstep
    · cases hstep
      exact .stays
    · split at hstep
      · cases hstep
        exact .stays
      · next fingerprint hprobe =>
        cases hstep
        exact .pairs hprobe
  | unpair raw =>
    simp only [World.step] at hstep
    split at hstep
    · cases hstep
      exact .stays
    · cases hstep
      exact .unpairs _
  | load i =>
    simp only [World.step] at hstep
    split at hstep
    · next edit hi =>
      split at hstep
      · cases hstep
        exact .leaves i
      · next pf hload =>
        cases hstep
        exact .loads rfl hi hload
    · cases hstep
  | save i ok =>
    simp only [World.step] at hstep
    split at hstep
    · next edit pf hi =>
      split at hstep
      · cases hstep
        exact .saves hi
      · cases hstep
        exact .leaves i
    · cases hstep
  | launch raw =>
    simp only [World.step] at hstep
    split at hstep
    · cases hstep
      exact .rejects
    · next link hparse =>
      cases hstep
      exact .starts (valid_of_parse hparse).1
  | trust i =>
    simp only [World.step] at hstep
    split at hstep
    · next link hi =>
      split at hstep
      · cases hstep
        exact .exits i 1
      · next server htrusted =>
        cases hstep
        exact .trusts hi htrusted
    · cases hstep
  | redeem i peer reply =>
    simp only [World.step] at hstep
    split at hstep
    · next link server hi =>
      split at hstep
      · cases hstep
        exact .exits i 1
      · next payload hredeem =>
        cases hstep
        obtain ⟨hconnects, hfile⟩ := redeemTicket_ok hredeem
        exact .redeems hi hconnects hfile
    · cases hstep
  | checkHub i answer =>
    simp only [World.step] at hstep
    split at hstep
    · next link server payload hi =>
      split at hstep
      · cases hstep
        exact .checks hi
      · next hcode =>
        cases hstep
        exact .fails hi (.inl rfl) hcode
    · cases hstep
  | perform i answer =>
    simp only [World.step] at hstep
    split at hstep
    · next link server payload hi =>
      split at hstep
      · cases hstep
        exact .asks _ hi
      · cases hstep
        exact .fails hi (.inr rfl) (by decide)
    · cases hstep
  | report i peer =>
    simp only [World.step] at hstep
    split at hstep
    · next link server code hi =>
      split at hstep
      · next hconnects =>
        cases hstep
        exact .reports _ hi hconnects
      · cases hstep
        exact .exits i _
    · cases hstep
  | lose left =>
    cases left with
    | file pf => cases hstep
    | absent =>
      cases hstep
      exact .loses fun pf hpf => (by cases hpf)
    | unreadable =>
      cases hstep
      exact .loses fun pf hpf => (by cases hpf)
    | undecodable =>
      cases hstep
      exact .loses fun pf hpf => (by cases hpf)

/-! ## What Fusion is asked for -/

/-- A server of the list is one the user paired with, and has the fingerprint of then. -/
def Backed (log : List Entry) (server : PairedServer) : Prop :=
  ∃ paired, .vouched server.origin paired ∈ log ∧
    probeCertificate server.origin paired = .ok server.fingerprint

/-- Who answers at an origin is whom the user paired with there. -/
def Served (log : List Entry) (origin : List UInt8) (peer : Option Peer) : Prop :=
  ∃ paired, .vouched origin paired ∈ log ∧ (overTLS origin = true →
    ∃ before now, paired = some before ∧ peer = some now ∧ Vouched origin before now)

/-- What may be told after a history. -/
def Fits (log : List Entry) : Entry → Prop
  | .vouched _ _ | .wrote _ => True
  | .trusts _ server => Backed log server
  | .redeemed i origin peer payload => Served log origin peer ∧ payload.fileID ≠ [] ∧
      ∃ server, .trusts i server ∈ log ∧ server.origin = origin
  | .asked i action fileID => ValidAction action ∧ ∃ origin peer payload,
      .redeemed i origin peer payload ∈ log ∧ Served log origin peer ∧ fileID = payload.fileID ∧
        (ValidAction payload.action → action = payload.action)
  | .reported i origin peer code => Served log origin peer ∧
      (code = "" → ∃ action fileID, .asked i action fileID ∈ log)

/-- A launch has come to where it stands. -/
def Ready (log : List Entry) (i : Nat) : Phase → Prop
  | .parsed link => ValidAction link.action
  | .trusted link server => ValidAction link.action ∧ Backed log server ∧ .trusts i server ∈ log
  | .redeemed link server payload | .checked link server payload =>
      ValidAction link.action ∧ Backed log server ∧ ∃ peer, Served log server.origin peer ∧
        .redeemed i server.origin peer payload ∈ log
  | .reporting _ server code => Backed log server ∧
      (code = "" → ∃ action fileID, .asked i action fileID ∈ log)
  | .exited _ => True

/-- What a command writes is backed. -/
def Command.Backs (log : List Entry) : Command → Prop
  | .loading (.pair server) => Backed log server
  | .loading (.unpair _) => True
  | .saving edit pf => ∀ server ∈ (edit.apply pf).servers, Backed log server
  | .exited => True

structure Inv (w : World) : Prop where
  told : Told Fits w.log
  stored : ∀ pf, w.stored = .file pf → ∀ server ∈ pf.servers, Backed w.log server
  commands : ∀ c ∈ w.commands, c.Backs w.log
  launches : ∀ (i : Nat) (p : Phase), w.launches[i]? = some p → Ready w.log i p

theorem Backed.cons (h : Backed log server) (entry : Entry) : Backed (entry :: log) server := by
  obtain ⟨paired, hmem, hprobe⟩ := h
  exact ⟨paired, List.mem_cons_of_mem _ hmem, hprobe⟩

theorem Served.cons {origin : List UInt8} {peer : Option Peer} (h : Served log origin peer)
    (entry : Entry) : Served (entry :: log) origin peer := by
  obtain ⟨paired, hmem, hsame⟩ := h
  exact ⟨paired, List.mem_cons_of_mem _ hmem, hsame⟩

/-- A request that gets through to a server of the list gets to whom the user paired with. -/
theorem Backed.served (h : Backed log server) {peer : Option Peer}
    (hconnects : peer.any server.connects = true) : Served log server.origin peer := by
  obtain ⟨paired, hmem, hprobe⟩ := h
  refine ⟨paired, hmem, fun htls => ?_⟩
  obtain ⟨now, rfl, hnow⟩ := (Option.any_eq_true _ _).mp hconnects
  cases paired with
  | some before => exact ⟨before, now, rfl, rfl, PairedServer.vouched hprobe hnow⟩
  | none =>
    -- nobody answered, so there was no certificate to look at
    unfold overTLS at htls
    unfold probeCertificate at hprobe
    split at htls
    · cases htls
    · next u hu =>
      rw [hu] at hprobe
      dsimp only at hprobe
      rw [if_neg (not_not.mpr (of_decide_eq_true htls))] at hprobe
      cases hprobe

theorem Ready.cons {i : Nat} {p : Phase} (h : Ready log i p) (entry : Entry) :
    Ready (entry :: log) i p := by
  cases p with
  | parsed link => exact h
  | trusted link server =>
    obtain ⟨haction, hbacked, htrusts⟩ := h
    exact ⟨haction, hbacked.cons entry, List.mem_cons_of_mem _ htrusts⟩
  | redeemed link server payload =>
    obtain ⟨haction, hbacked, peer, hserved, hmem⟩ := h
    exact ⟨haction, hbacked.cons entry, peer, hserved.cons entry, List.mem_cons_of_mem _ hmem⟩
  | checked link server payload =>
    obtain ⟨haction, hbacked, peer, hserved, hmem⟩ := h
    exact ⟨haction, hbacked.cons entry, peer, hserved.cons entry, List.mem_cons_of_mem _ hmem⟩
  | reporting link server code =>
    refine ⟨h.1.cons entry, fun hcode => ?_⟩
    obtain ⟨action, fileID, hmem⟩ := h.2 hcode
    exact ⟨action, fileID, List.mem_cons_of_mem _ hmem⟩
  | exited code => trivial

theorem Command.Backs.cons {c : Command} (h : c.Backs log) (entry : Entry) :
    c.Backs (entry :: log) := by
  cases c with
  | loading edit =>
    cases edit with
    | pair server => exact Backed.cons h entry
    | unpair origin => trivial
  | saving edit pf => exact fun server hserver => (h server hserver).cons entry
  | exited => trivial

/-- A command that has read the file writes what is backed. -/
theorem Command.Backs.load {edit : Edit} {pf : PairingFile} (h : (Command.loading edit).Backs log)
    (hpf : ∀ server ∈ pf.servers, Backed log server) : (Command.saving edit pf).Backs log := by
  intro server hserver
  cases edit with
  | pair entry =>
    rcases PairingFile.mem_of_mem_pair hserver with rfl | hold
    · exact h
    · exact hpf server hold
  | unpair origin => exact hpf server (PairingFile.mem_unpair hserver).1

/-- What is read is what is stored, or nothing. -/
theorem stored_of_load {stored : Stored} {pf : PairingFile} (h : loadPairings stored = .ok pf) :
    stored = .file pf ∨ pf.servers = [] := by
  cases stored with
  | absent =>
    cases h
    exact .inr rfl
  | unreadable => cases h
  | undecodable => cases h
  | file held =>
    unfold loadPairings at h
    dsimp only at h
    split at h
    · cases h
    · cases h
      exact .inl rfl

theorem stored_of_trusted {stored : Stored} {raw : List UInt8}
    (h : trusted lower stored raw = some server) :
    ∃ pf, stored = .file pf ∧ server ∈ pf.servers := by
  unfold trusted at h
  dsimp only at h
  split at h
  · cases h
  · split at h
    · cases h
    · next pf hload =>
      obtain ⟨hmem, -⟩ := find_ok h
      rcases stored_of_load hload with hstored | hnil
      · exact ⟨pf, hstored, hmem⟩
      · rw [hnil] at hmem
        cases hmem

theorem action_valid {link : Link} (h : ValidAction link.action) (payload : TicketPayload) :
    ValidAction (World.action link payload) ∧
      (ValidAction payload.action → World.action link payload = payload.action) := by
  unfold World.action
  split
  · next hpayload => exact ⟨hpayload, fun _ => rfl⟩
  · next hpayload => exact ⟨h, fun hvalid => absurd hvalid hpayload⟩

namespace Inv

theorem note (h : Inv w) (entry : Entry) (hfits : Fits w.log entry) : Inv (w.note entry) where
  told := ⟨hfits, h.told⟩
  stored pf hpf server hserver := (h.stored pf hpf server hserver).cons entry
  commands c hc := (h.commands c hc).cons entry
  launches i p hp := (h.launches i p hp).cons entry

theorem command (h : Inv w) {edit : Edit} (hedit : (Command.loading edit).Backs w.log) :
    Inv (w.command edit) where
  told := h.told
  stored := h.stored
  commands c hc := by
    rcases List.mem_append.mp hc with hold | hnew
    · exact h.commands c hold
    · rw [List.mem_singleton.mp hnew]
      exact hedit
  launches := h.launches

theorem setCommand (h : Inv w) (i : Nat) {c : Command} (hc : c.Backs w.log) :
    Inv (w.setCommand i c) where
  told := h.told
  stored := h.stored
  commands c' hc' := by
    rcases List.mem_or_eq_of_mem_set hc' with hold | rfl
    · exact h.commands c' hold
    · exact hc
  launches := h.launches

theorem setLaunch (h : Inv w) (i : Nat) {p : Phase} (hp : Ready w.log i p) :
    Inv (w.setLaunch i p) where
  told := h.told
  stored := h.stored
  commands := h.commands
  launches j q hq := by
    rcases getElem?_set_cases hq with ⟨rfl, rfl⟩ | ⟨-, hold⟩
    · exact hp
    · exact h.launches j q hold

theorem start (h : Inv w) (p : Phase) (hp : Ready w.log w.launches.length p) :
    Inv { w with launches := w.launches ++ [p] } where
  told := h.told
  stored := h.stored
  commands := h.commands
  launches j q hq := by
    rcases getElem?_snoc.mp hq with hold | ⟨rfl, rfl⟩
    · exact h.launches j q hold
    · exact hp

theorem keep (h : Inv w) {stored : Stored}
    (hstored : ∀ pf, stored = .file pf → ∀ server ∈ pf.servers, Backed w.log server) :
    Inv { w with stored } :=
  ⟨h.told, hstored, h.commands, h.launches⟩

theorem step (h : Inv w) (hmoves : Moves lower w e w') : Inv w' := by
  cases hmoves with
  | stays => exact h
  | pairs hprobe => exact (h.note (.vouched _ _) trivial).command ⟨_, List.mem_cons_self, hprobe⟩
  | unpairs origin => exact h.command trivial
  | leaves i => exact h.setCommand i trivial
  | @loads i edit pf _ hi hload =>
    refine h.setCommand i ((h.commands _ (List.mem_of_getElem? hi)).load ?_)
    rcases stored_of_load hload with hstored | hnil
    · exact h.stored pf hstored
    · intro server hserver
      rw [hnil] at hserver
      cases hserver
  | @saves i edit pf hi =>
    have hsaved := h.commands _ (List.mem_of_getElem? hi)
    refine ((h.note (.wrote edit) trivial).keep fun pf' hpf' server hserver => ?_).setCommand i
      trivial
    cases hpf'
    exact (hsaved server hserver).cons _
  | rejects => exact h.start (.exited 2) trivial
  | starts hvalid => exact h.start (.parsed _) hvalid
  | exits i code => exact h.setLaunch i trivial
  | @trusts i link server hi htrusted =>
    obtain ⟨pf, hstored, hmem⟩ := stored_of_trusted htrusted
    have hbacked := h.stored pf hstored server hmem
    exact (h.note (.trusts i server) hbacked).setLaunch i
      ⟨h.launches i _ hi, hbacked.cons _, List.mem_cons_self⟩
  | @redeems i link server peer payload hi hconnects hfile =>
    obtain ⟨haction, hbacked, htrusts⟩ := h.launches i _ hi
    have hserved := hbacked.served hconnects
    exact (h.note (.redeemed i server.origin peer payload)
      ⟨hserved, hfile, server, htrusts, rfl⟩).setLaunch i
      ⟨haction, hbacked.cons _, peer, hserved.cons _, List.mem_cons_self⟩
  | @checks i link server payload hi =>
    have hready := h.launches i _ hi
    exact h.setLaunch i hready
  | @fails i p link server payload code hi hp hcode =>
    have hbacked : Backed w.log server := by
      rcases hp with rfl | rfl
      · exact (h.launches i _ hi).2.1
      · exact (h.launches i _ hi).2.1
    exact h.setLaunch i ⟨hbacked, fun hnone => absurd hnone hcode⟩
  | @asks i link server payload code hi =>
    obtain ⟨haction, hbacked, peer, hserved, hmem⟩ := h.launches i _ hi
    obtain ⟨hvalid, hsame⟩ := action_valid haction payload
    exact (h.note (.asked i _ payload.fileID)
      ⟨hvalid, server.origin, peer, payload, hmem, hserved, rfl, hsame⟩).setLaunch i
      ⟨hbacked.cons _, fun _ => ⟨_, _, List.mem_cons_self⟩⟩
  | @reports i link server code peer exit hi hconnects =>
    obtain ⟨hbacked, hasked⟩ := h.launches i _ hi
    exact (h.note (.reported i server.origin peer code)
      ⟨hbacked.served hconnects, hasked⟩).setLaunch i trivial
  | loses hnone => exact h.keep fun pf hpf => absurd hpf (hnone pf)

end Inv

/-- What is left of an origin by a command that writes the file. -/
def Entry.left? (origin : List UInt8) : Entry → Option (Option PairedServer)
  | .wrote (.pair server) => if server.origin = origin then some (some server) else none
  | .wrote (.unpair other) => if other = origin then some none else none
  | _ => none

/-- What the latest of these commands left of it. -/
def latest (log : List Entry) (origin : List UInt8) : Option PairedServer :=
  (log.findSome? (Entry.left? origin)).join

/-- The file has the servers that the commands left. -/
structure Current (log : List Entry) (pf : PairingFile) : Prop where
  distinct : pf.Distinct
  latest : ∀ server ∈ pf.servers, latest log server.origin = some server

/-- A command reads the file only when no other is about to write it. -/
def World.Apart (w : World) : Event → Prop
  | .load _ => ∀ c ∈ w.commands, c.saves = false
  | _ => True

instance (w : World) (e : Event) : Decidable (w.Apart e) := by
  unfold World.Apart
  split <;> infer_instance

/-- Who is trusted is as the latest command left them. -/
def TrustsLatest (log : List Entry) (entry : Entry) : Prop :=
  ∀ i server, entry = .trusts i server → latest log server.origin = some server

structure Orderly (w : World) : Prop where
  told : Told TrustsLatest w.log
  stored : ∀ pf, w.stored = .file pf → Current w.log pf
  saving : ∀ (i : Nat) (edit : Edit) (pf : PairingFile),
    w.commands[i]? = some (.saving edit pf) → Current w.log pf
  /-- One command at a time is about to write. -/
  alone : ∀ (i j : Nat) (c d : Command), w.commands[i]? = some c → c.saves = true →
    w.commands[j]? = some d → d.saves = true → j = i

theorem latest_cons {entry : Entry} {origin : List UInt8} (h : entry.left? origin = none) :
    latest (entry :: log) origin = latest log origin := by
  unfold latest
  rw [List.findSome?_cons, h]

theorem Current.note {pf : PairingFile} (h : Current log pf) {entry : Entry}
    (hquiet : ∀ origin, entry.left? origin = none) : Current (entry :: log) pf :=
  ⟨h.distinct, fun server hserver => (latest_cons (hquiet _)).trans (h.latest server hserver)⟩

/-- A command's edit leaves what it says. -/
theorem Current.apply {pf : PairingFile} (h : Current log pf) (edit : Edit) :
    Current (.wrote edit :: log) (edit.apply pf) := by
  cases edit with
  | pair entry =>
    refine ⟨PairingFile.distinct_pair h.distinct entry, fun server hserver => ?_⟩
    rcases PairingFile.mem_pair h.distinct hserver with rfl | ⟨hold, hother⟩
    · unfold Launch.latest
      rw [List.findSome?_cons, Entry.left?, if_pos rfl]
      rfl
    · have hquiet : (Entry.wrote (.pair entry)).left? server.origin = none :=
        if_neg fun hsame => hother hsame.symm
      rw [latest_cons hquiet]
      exact h.latest server hold
  | unpair origin =>
    refine ⟨PairingFile.distinct_unpair h.distinct origin, fun server hserver => ?_⟩
    obtain ⟨hold, hother⟩ := PairingFile.mem_unpair hserver
    have hquiet : (Entry.wrote (.unpair origin)).left? server.origin = none :=
      if_neg fun hsame => hother hsame.symm
    rw [latest_cons hquiet]
    exact h.latest server hold

theorem current_of_load {stored : Stored} {pf : PairingFile}
    (hstored : ∀ pf, stored = .file pf → Current log pf) (hload : loadPairings stored = .ok pf) :
    Current log pf := by
  rcases stored_of_load hload with heq | hnil
  · exact hstored pf heq
  · constructor
    · rw [PairingFile.Distinct, hnil]
      exact List.nodup_nil
    · intro server hserver
      rw [hnil] at hserver
      cases hserver

namespace Orderly

theorem note (h : Orderly w) {entry : Entry} (hquiet : ∀ origin, entry.left? origin = none)
    (htrusts : TrustsLatest w.log entry) : Orderly (w.note entry) where
  told := ⟨htrusts, h.told⟩
  stored pf hpf := (h.stored pf hpf).note hquiet
  saving i edit pf hi := (h.saving i edit pf hi).note hquiet
  alone := h.alone

theorem command (h : Orderly w) (edit : Edit) : Orderly (w.command edit) where
  told := h.told
  stored := h.stored
  saving i edit' pf hi := by
    rcases getElem?_snoc.mp hi with hold | ⟨-, hnew⟩
    · exact h.saving i edit' pf hold
    · cases hnew
  alone i j c d hi hc hj hd := by
    rcases getElem?_snoc.mp hi with hi | ⟨-, rfl⟩
    · rcases getElem?_snoc.mp hj with hj | ⟨-, rfl⟩
      · exact h.alone i j c d hi hc hj hd
      · cases hd
    · cases hc

/-- A command ends. -/
theorem leave (h : Orderly w) (i : Nat) : Orderly (w.setCommand i .exited) where
  told := h.told
  stored := h.stored
  saving j edit pf hj := by
    rcases getElem?_set_cases hj with ⟨-, heq⟩ | ⟨-, hold⟩
    · cases heq
    · exact h.saving j edit pf hold
  alone j k c d hj hc hk hd := by
    rcases getElem?_set_cases hj with ⟨-, rfl⟩ | ⟨-, hj⟩
    · cases hc
    · rcases getElem?_set_cases hk with ⟨-, rfl⟩ | ⟨-, hk⟩
      · cases hd
      · exact h.alone j k c d hj hc hk hd

/-- A command reads the file while no other is about to write it. -/
theorem load (h : Orderly w) (hnone : ∀ c ∈ w.commands, c.saves = false) (i : Nat) (edit : Edit)
    {pf : PairingFile} (hpf : Current w.log pf) : Orderly (w.setCommand i (.saving edit pf)) where
  told := h.told
  stored := h.stored
  saving j edit' pf' hj := by
    rcases getElem?_set_cases hj with ⟨-, heq⟩ | ⟨-, hold⟩
    · cases heq
      exact hpf
    · exact h.saving j edit' pf' hold
  alone j k c d hj hc hk hd := by
    have hself : ∀ (j : Nat) (c : Command), (w.commands.set i (.saving edit pf))[j]? = some c →
        c.saves = true → j = i := by
      intro j c hj hc
      rcases getElem?_set_cases hj with ⟨rfl, -⟩ | ⟨-, hold⟩
      · rfl
      · rw [hnone c (List.mem_of_getElem? hold)] at hc
        cases hc
    rw [hself j c hj hc, hself k d hk hd]

/-- The one command that is about to write does. -/
theorem save (h : Orderly w) {i : Nat} {edit : Edit} {pf : PairingFile}
    (hi : w.commands[i]? = some (.saving edit pf)) :
    Orderly
      ({ w.note (.wrote edit) with stored := (edit.apply pf).saved }.setCommand i .exited) where
  told := ⟨fun _ _ heq => (by cases heq), h.told⟩
  stored pf' hpf' := by
    cases hpf'
    have hcurrent := (h.saving i edit pf hi).apply edit
    exact ⟨hcurrent.distinct, hcurrent.latest⟩
  saving j edit' pf' hj := by
    rcases getElem?_set_cases hj with ⟨-, heq⟩ | ⟨hne, hold⟩
    · cases heq
    · exact absurd (h.alone i j _ _ hi rfl hold rfl) hne
  alone := (h.leave i).alone

theorem setLaunch (h : Orderly w) (i : Nat) (p : Phase) : Orderly (w.setLaunch i p) :=
  ⟨h.told, h.stored, h.saving, h.alone⟩

theorem start (h : Orderly w) (p : Phase) :
    Orderly { w with launches := w.launches ++ [p] } :=
  ⟨h.told, h.stored, h.saving, h.alone⟩

/-- The file goes. -/
theorem lost (h : Orderly w) {stored : Stored} (hnone : ∀ pf, stored ≠ .file pf) :
    Orderly { w with stored } :=
  ⟨h.told, fun pf hpf => absurd hpf (hnone pf), h.saving, h.alone⟩

theorem step (h : Orderly w) (hapart : w.Apart e) (hmoves : Moves lower w e w') : Orderly w' := by
  cases hmoves with
  | stays => exact h
  | pairs hprobe => exact (h.note (fun _ => rfl) fun _ _ heq => (by cases heq)).command _
  | unpairs origin => exact h.command _
  | leaves i => exact h.leave i
  | @loads i edit pf he hi hload =>
    subst he
    exact h.load hapart i edit (current_of_load h.stored hload)
  | saves hi => exact h.save hi
  | rejects => exact h.start _
  | starts hvalid => exact h.start _
  | exits i code => exact h.setLaunch i _
  | @trusts i link server hi htrusted =>
    obtain ⟨pf, hstored, hmem⟩ := stored_of_trusted htrusted
    refine (h.note (fun _ => rfl) ?_).setLaunch i _
    rintro i server ⟨⟩
    exact (h.stored pf hstored).latest server hmem
  | @redeems i link server peer payload hi hconnects hfile =>
    exact (h.note (fun _ => rfl) fun _ _ heq => (by cases heq)).setLaunch i _
  | @checks i link server payload hi => exact h.setLaunch i _
  | @fails i p link server payload code hi hp hcode => exact h.setLaunch i _
  | @asks i link server payload code hi =>
    exact (h.note (fun _ => rfl) fun _ _ heq => (by cases heq)).setLaunch i _
  | @reports i link server code peer exit hi hconnects =>
    exact (h.note (fun _ => rfl) fun _ _ heq => (by cases heq)).setLaunch i _
  | loses hnone => exact h.lost hnone

end Orderly

/-- **A launch trusts a server as the latest command for its origin left it**: one that was unpaired
is not trusted, nor one with the certificate of an earlier pairing. -/
theorem trusts_latest
    (h : Run (fun w e w' => World.step lower w e = some w') World.Apart {} es w) :
    ∀ (later earlier : List Entry) (i : Nat) (server : PairedServer),
      w.log = later ++ .trusts i server :: earlier → latest earlier server.origin = some server := by
  have hinv : Orderly w := by
    refine h.invariant ⟨trivial, ?_, ?_, ?_⟩ fun _ _ _ hinv hapart hstep =>
      hinv.step hapart (moves_of_step hstep)
    all_goals intros; contradiction
  intro later earlier i server hlog
  have htold := hinv.told
  rw [hlog] at htold
  exact htold.fits i server rfl

/-! ### A server that is opened from, and one that is unpaired -/

/-- A server whose certificate the system trusts. -/
def known : Peer where
  certs := [[1]]
  leafAccepted := true
  accepted := true

def site : List UInt8 := bytes "https://a"

def paired : PairedServer where
  origin := site
  fingerprint := ""
  pairedAt := 0

def document : TicketPayload where
  action := actionOpen
  fileID := bytes "f"

/-- The user pairs with a server, and opens a document from it. -/
def opened : List Event :=
  [.pair site (some known) 0, .load 0, .save 0 true, .launch (buildURL actionOpen (bytes "t") site),
    .trust 0, .redeem 0 (some known) (.payload document), .checkHub 0 (.ok true), .perform 0 none]

def openedLog : List Entry :=
  [.redeemed 0 site (some known) document, .trusts 0 paired, .wrote (.pair paired),
    .vouched site (some known)]

theorem trusts_latest_opened :
    latest [.wrote (.pair paired), .vouched site (some known)] site = some paired := by
  have hexec : (Run.exec (World.step id) World.Apart (opened.take 5) {}).map (·.log) =
      some [.trusts 0 paired, .wrote (.pair paired), .vouched site (some known)] := by
    decide +kernel
  obtain ⟨w, hw, hlog⟩ := Option.map_eq_some_iff.mp hexec
  exact trusts_latest (Run.of_exec _ hw) [] _ 0 paired hlog

/-- The user unpairs a server while another is being paired with. -/
def overlapping : List Event :=
  [.pair site (some known) 0, .load 0, .save 0 true, .pair (bytes "http://b") none 0, .load 1,
    .unpair site, .load 2, .save 2 true, .save 1 true,
    .launch (buildURL actionOpen (bytes "t") site), .trust 0]

def overlappingLog : List Entry :=
  [.wrote (.pair { paired with origin := bytes "http://b" }), .wrote (.unpair site),
    .vouched (bytes "http://b") none, .wrote (.pair paired), .vouched site (some known)]

/-- **A server that was unpaired is trusted**: a command that had read the file before wrote it
back. -/
theorem unpaired_trusted : ∃ w : World,
    Run (fun w e w' => World.step id w e = some w') always {} overlapping w ∧
      w.log = .trusts 0 paired :: overlappingLog ∧ latest overlappingLog site = none := by
  have hexec : (Run.exec (World.step id) always overlapping {}).map (·.log) =
      some (.trusts 0 paired :: overlappingLog) := by decide +kernel
  obtain ⟨w, hw, hlog⟩ := Option.map_eq_some_iff.mp hexec
  exact ⟨w, Run.of_exec overlapping hw, hlog, by decide +kernel⟩

end FusionLocalServer.Fusion.Launch
