import FusionLocalServer.Chat.Idempotent

/-!
# What a damaged log leaves

A log whose tail was damaged reads as an initial part of what was acknowledged (`Legible`), and
the next load cuts it back to that. The messages of a log are numbered in their order, from 1
on, and the next number is read off the log (`Numbered`).
-/

namespace FusionLocalServer.Chat

open Lib

/-! ## Damage -/

/-- The state a log is loaded to. -/
def logState (f : LogFile) : ChannelState :=
  match (replayLog f none).2 with
  | .ok recs => replayMessages recs
  | .error _ => emptyState

/-- The state of a channel, or what it will be loaded to. -/
def Channel.state (ch : Channel) : ChannelState := ch.loaded.getD (logState ch.file)

/-- The records that are left in a log. -/
def recordsIn (bytes : List UInt8) : List Record :=
  match logReader.read bytes with
  | .ok s => s.recs
  | .error _ => []

/-- A channel with its log damaged; what is left of what was acknowledged is what reads back. -/
def Channel.damaged (ch : Channel) (bytes : List UInt8) : Channel :=
  { ch with file := { ch.file with bytes }, loaded := none, acked := recordsIn bytes }

/-- What a damaged tail leaves of a log: lines of what was acknowledged, and then bytes at which
the reader stops. -/
def CutTo (ch : Channel) (bytes : List UInt8) (n : Nat) : Prop :=
  ∃ bs tail, bytes = bs ++ tail ∧ logReader.Lines bs (ch.acked.take n) ∧ logReader.Stops tail

/-! ## Channels whose log can be read -/

/-- A log that reads as what was acknowledged, with no torn line where the channel is loaded. -/
structure Legible (ch : Channel) : Prop where
  log : ∃ bs tail, ch.file.bytes = bs ++ tail ∧ logReader.Lines bs ch.acked ∧ logReader.Stops tail
  sound : ∀ record ∈ ch.acked, record.Sound
  loaded : ∀ cs, ch.loaded = some cs → Synced ch

theorem Synced.legible {ch : Channel} (h : Synced ch) : Legible ch := by
  obtain ⟨bs, frag, hbytes, hlines, hfrag⟩ := h.log
  exact ⟨⟨bs, frag, hbytes, hlines, hfrag.stops⟩, h.sound, fun _ _ => h⟩

theorem replayLog_stops {f : LogFile} {bs tail : List UInt8} {recs : List Record}
    (hbytes : f.bytes = bs ++ tail) (hlines : logReader.Lines bs recs)
    (htail : logReader.Stops tail) (fault : Option LoadFault) :
    (∃ tail', (replayLog f fault).1.bytes = bs ++ tail' ∧ logReader.Stops tail') ∧
      (fault = none → (replayLog f fault).2 = .ok recs) ∧
      ∀ recs', (replayLog f fault).2 = .ok recs' →
        recs' = recs ∧ (replayLog f fault).1.bytes = bs := by
  obtain ⟨corrupt, hread⟩ := LineReader.read_lines_stops hlines htail
  have hnil : logReader.Stops [] := .unfinished rfl
  unfold replayLog
  split
  · next hfault =>
    refine ⟨⟨tail, hbytes, htail⟩, fun hnone => ?_, fun _ h => (nomatch h)⟩
    rw [hnone] at hfault
    cases hfault
  rw [hbytes, hread]
  dsimp only
  split
  · have hkept : (if corrupt = true then ⟨bs ++ tail, some (bs ++ tail)⟩ else f : LogFile).bytes =
        bs ++ tail := by
      split
      · rfl
      · exact hbytes
    have htake : ((if corrupt = true then ⟨bs ++ tail, some (bs ++ tail)⟩ else f : LogFile).bytes).take
        bs.length = bs := hkept.symm ▸ List.take_left' rfl
    split
    · next hfault =>
      refine ⟨⟨tail, hkept, htail⟩, fun hnone => ?_, fun _ h => (nomatch h)⟩
      rw [hnone] at hfault
      cases hfault
    · refine ⟨⟨[], ?_, hnil⟩, fun _ => rfl, fun recs' h => ⟨(Except.ok.inj h).symm, ?_⟩⟩
      · rw [List.append_nil]
        exact htake
      · exact htake
  · next hle =>
    -- the lines are the whole file
    have hempty : tail = [] := by
      rw [List.length_append] at hle
      exact List.length_eq_zero_iff.mp (by omega)
    refine ⟨⟨tail, hbytes, htail⟩, fun _ => rfl, fun recs' h => ⟨(Except.ok.inj h).symm, ?_⟩⟩
    rw [hbytes, hempty, List.append_nil]

namespace Legible

variable {ch : Channel}

theorem logState_eq (h : Legible ch) : logState ch.file = replayMessages ch.acked := by
  obtain ⟨bs, tail, hbytes, hlines, htail⟩ := h.log
  unfold logState
  rw [(replayLog_stops hbytes hlines htail none).2.1 rfl]

/-- The state of the channel is what was acknowledged. -/
theorem state_eq (h : Legible ch) : ch.state = replayMessages ch.acked := by
  unfold Channel.state
  cases hloaded : ch.loaded with
  | none => rw [Option.getD_none, h.logState_eq]
  | some cs => rw [Option.getD_some, (h.loaded cs hloaded).loaded cs hloaded]

/-- A channel is loaded to what was acknowledged, and nothing is left behind the lines of it. -/
theorem channelState (h : Legible ch) (env : Env) :
    Legible (ch.channelState env).1 ∧ (ch.channelState env).1.acked = ch.acked ∧
      ∀ cs, (ch.channelState env).2 = .ok cs → cs = replayMessages ch.acked ∧
        (ch.channelState env).1.loaded = some cs ∧ Synced (ch.channelState env).1 ∧
        ((ch.channelState env).1 = ch ∨ EndsClean (ch.channelState env).1.file.bytes) := by
  unfold Channel.channelState
  cases hloaded : ch.loaded with
  | some cs =>
    have hsync := h.loaded cs hloaded
    refine ⟨h, rfl, fun cs' hok => ?_⟩
    cases hok
    exact ⟨hsync.loaded cs hloaded, hloaded, hsync, .inl rfl⟩
  | none =>
    obtain ⟨bs, tail, hbytes, hlines, htail⟩ := h.log
    obtain ⟨⟨tail', hbytes', htail'⟩, -, hok⟩ := replayLog_stops hbytes hlines htail env.load
    cases hreplay : replayLog ch.file env.load with
    | mk f result =>
      rw [hreplay] at hbytes' hok
      have hfail : Legible { ch with file := f, loaded := none } :=
        ⟨⟨bs, tail', hbytes', hlines, htail'⟩, h.sound, fun _ hcs => (nomatch hcs)⟩
      cases result with
      | error e => exact ⟨hfail, rfl, fun _ hcs => (nomatch hcs)⟩
      | ok recs =>
        obtain ⟨rfl, hclean⟩ := hok recs rfl
        dsimp only
        split
        · exact ⟨hfail, rfl, fun _ hcs => (nomatch hcs)⟩
        · have hsync : Synced { ch with file := f, loaded := some (replayMessages ch.acked) } :=
            { log := ⟨bs, [], hclean.trans (List.append_nil _).symm, hlines, List.not_mem_nil⟩
              loaded := fun cs hcs => (Option.some.inj hcs).symm
              sound := h.sound }
          refine ⟨hsync.legible, rfl, fun cs hcs => ?_⟩
          cases hcs
          exact ⟨rfl, rfl, hsync, .inr (hclean ▸ hlines.endsClean)⟩

/-- A mutator whose records replay as meant keeps the log legible. -/
theorem run {α : Type} {mt : Mutator α} (hmt : Replays mt) (h : Legible ch) {env : Env}
    (hsafe : ∀ cs record, ch.loaded = some cs → mt.record? ch cs = some record →
      record.marshal ≠ none → env.write = .full → EndsClean ch.file.bytes) :
    Legible (mt.run ch env).1 := by
  cases hloaded : ch.loaded with
  | some cs => exact ((h.loaded cs hloaded).run hmt hsafe).legible
  | none =>
    obtain ⟨hlegible, -, hload⟩ := h.channelState env
    cases hcheck : mt.check with
    | some e =>
      unfold Mutator.run
      rw [hcheck]
      exact h
    | none =>
      cases hst : ch.channelState env with
      | mk ch₁ result =>
        rw [hst] at hlegible hload
        cases result with
        | error e =>
          unfold Mutator.run
          rw [hcheck, hst]
          exact hlegible
        | ok cs =>
          obtain ⟨-, hloaded₁, hsync, hclean⟩ := hload cs rfl
          -- the call on the channel that is loaded now
          have hsame : mt.run ch env = mt.run ch₁ env := by
            unfold Mutator.run
            rw [hcheck, hst, show ch₁.channelState env = (ch₁, .ok cs) by
              unfold Channel.channelState
              rw [hloaded₁]]
          rw [hsame]
          refine (hsync.run hmt fun _ _ _ _ _ _ => ?_).legible
          rcases hclean with rfl | hclean
          · rw [hloaded] at hloaded₁
            cases hloaded₁
          · exact hclean

theorem exec (h : Legible ch) {env : Env} {op : Op} (hsafe : TailSafe ch (env, op)) :
    Legible (exec ch env op) := by
  cases op with
  | create => exact h.run (replays_createMessage ..) hsafe
  | edit => exact h.run (replays_editMessage ..) hsafe
  | delete => exact h.run (replays_deleteMessage ..) hsafe
  | react => exact h.run (replays_addReaction ..) hsafe
  | unreact => exact h.run (replays_removeReaction ..) hsafe
  | archive =>
    refine ⟨h.log, h.sound, fun cs hcs => ?_⟩
    have hsync := h.loaded cs hcs
    exact { log := hsync.log, loaded := hsync.loaded, sound := hsync.sound }
  | restart => exact ⟨h.log, h.sound, fun _ hcs => (nomatch hcs)⟩

theorem unload (h : Legible ch) : Legible { ch with loaded := none } :=
  ⟨h.log, h.sound, fun _ hcs => (nomatch hcs)⟩

/-- A damaged tail leaves an initial part of what was acknowledged. -/
theorem damaged (h : Legible ch) {bytes : List UInt8} {n : Nat}
    (hcut : CutTo ch bytes n) :
    Legible (ch.damaged bytes) ∧ (ch.damaged bytes).acked = ch.acked.take n := by
  obtain ⟨bs, tail, rfl, hlines, htail⟩ := hcut
  obtain ⟨corrupt, hread⟩ := LineReader.read_lines_stops hlines htail
  have hacked : (ch.damaged (bs ++ tail)).acked = ch.acked.take n := by
    show recordsIn _ = _
    unfold recordsIn
    rw [hread]
  refine ⟨⟨⟨bs, tail, rfl, hacked ▸ hlines, htail⟩, ?_, fun _ hcs => (nomatch hcs)⟩, hacked⟩
  rw [hacked]
  exact fun record hrecord => h.sound record (List.mem_of_mem_take hrecord)

end Legible

/-! ## Numbers -/

/-- The messages of a log are numbered from 1 on, and the numbers have not run out. -/
structure Numbered (recs : List Record) : Prop where
  seqs : ∀ (i : Nat) rec, (creations recs)[i]? = some rec → rec.seq = (i : Int) + 1
  few : ((creations recs).length : Int) < 2 ^ 63 - 1

namespace Numbered

variable {recs : List Record}

theorem nil : Numbered [] := ⟨fun _ _ h => (nomatch h), by decide⟩

theorem of_isPrefix {recs' : List Record} (h : Numbered recs) (hle : recs' <+: recs) :
    Numbered recs' := by
  have hpre : creations recs' <+: creations recs := hle.filter _
  have hlen := hpre.length_le
  have hfew := h.few
  refine ⟨fun i rec hrec => h.seqs i rec ?_, by omega⟩
  obtain ⟨rest, hrest⟩ := hpre
  rw [← hrest, List.getElem?_append_left (List.getElem?_eq_some_iff.mp hrec).1, hrec]

/-- The next number is the number of messages, and one. -/
theorem nextSeq (h : Numbered recs) :
    (replayMessages recs).nextSeq = ((creations recs).length : Int) + 1 := by
  induction recs using List.reverseRecOn with
  | nil => rfl
  | append_singleton recs rec ih =>
    have hbefore := ih (h.of_isPrefix (List.prefix_append _ _))
    rw [replayMessages_snoc, creations_snoc]
    by_cases hop : rec.op = opCreate
    · have hseq : rec.seq = ((creations recs).length : Int) + 1 := by
        refine h.seqs _ rec ?_
        rw [creations_snoc, if_pos hop, List.getElem?_concat_length]
      have hfew := h.few
      rw [creations_snoc, if_pos hop, List.length_append, List.length_singleton] at hfew
      rw [(replayRecord_creation hop).2.2, if_pos hop, hbefore, hseq, if_pos (Int.le_refl _),
        List.length_append, List.length_singleton]
      unfold incr64
      rw [if_neg (by omega)]
      omega
    · rw [(replayRecord_other hop).2.2, if_neg hop, List.append_nil, hbefore]

/-- A message stands at the place of its number. -/
theorem msg (h : Numbered recs) {i : Nat} {m : Message}
    (hm : (replayMessages recs).msgs[i]? = some m) : m.seq = (i : Int) + 1 := by
  have hsent := congrArg (fun l => l[i]?) (replayMessages_sent recs)
  rw [List.getElem?_map, List.getElem?_map, hm] at hsent
  obtain ⟨rec, hrec, heq⟩ := Option.map_eq_some_iff.mp hsent.symm
  rw [← h.seqs i rec hrec]
  exact (congrArg Prod.fst heq).symm

/-- A record may follow that takes the next number, if it takes one. -/
theorem snoc (h : Numbered recs) {rec : Record}
    (hrec : rec.op = opCreate → rec.seq = (replayMessages recs).nextSeq)
    (hfew : (replayMessages recs).nextSeq < 2 ^ 63 - 1) : Numbered (recs ++ [rec]) := by
  rw [h.nextSeq] at hrec hfew
  by_cases hop : rec.op = opCreate
  · constructor
    · rw [creations_snoc, if_pos hop]
      intro i rec' hrec'
      rcases Nat.lt_or_ge i (creations recs).length with hlt | hge
      · rw [List.getElem?_append_left hlt] at hrec'
        exact h.seqs i rec' hrec'
      · rw [List.getElem?_append_right hge] at hrec'
        obtain ⟨hi, rfl⟩ := List.getElem?_eq_some_iff.mp hrec'
        rw [List.length_singleton] at hi
        rw [List.getElem_singleton, hrec hop]
        omega
    · rw [creations_snoc, if_pos hop, List.length_append, List.length_singleton]
      omega
  · constructor
    · rw [creations_snoc, if_neg hop, List.append_nil]
      exact h.seqs
    · rw [creations_snoc, if_neg hop, List.append_nil]
      exact h.few

end Numbered

/-! ## What a call does to the numbers -/

/-- A change elsewhere in a message leaves its number and whether it is live. -/
theorem exists_mem_update {cs : ChannelState} {m : Message} (hm : m ∈ cs.msgs) (j : Nat)
    {f : Message → Message} (hf : ∀ m, (f m).seq = m.seq ∧ (f m).deletedAt = m.deletedAt) :
    ∃ m' ∈ (cs.update j f).msgs, m'.seq = m.seq ∧ m'.deletedAt = m.deletedAt := by
  obtain ⟨i, hi⟩ := List.mem_iff_getElem?.mp hm
  have hget : (cs.update j f).msgs[i]? = some (if j = i then f m else m) := by
    show (cs.msgs.modify j f)[i]? = _
    rw [List.getElem?_modify, hi]
    rfl
  refine ⟨_, List.mem_of_getElem? hget, ?_⟩
  split
  · exact hf m
  · exact ⟨rfl, rfl⟩

/-- A new message takes the next number, and is live. -/
theorem createMessage_numbers {now : Time} {authorID authorName clientMsgID body : String}
    {threadRoot : Int} {ch : Channel} {cs next : ChannelState} {record : Record}
    {result : Message × Bool}
    (h : (Store.createMessage now authorID authorName clientMsgID body threadRoot).plan ch cs =
      .ok (.write record next result)) :
    record.seq = cs.nextSeq ∧ result.1.seq = cs.nextSeq ∧
      ∃ m' ∈ next.msgs, m'.seq = result.1.seq ∧ m'.deletedAt = none := by
  unfold Store.createMessage at h
  dsimp only at h
  split at h
  · cases h
  split at h
  · cases h
  split at h
  · cases h
  · next hroot =>
    cases h
    refine ⟨rfl, rfl, ?_⟩
    split
    · split
      · exact exists_mem_update (List.mem_append_right _ List.mem_cons_self) _ fun _ => ⟨rfl, rfl⟩
      · exact ⟨_, List.mem_append_right _ List.mem_cons_self, rfl, rfl⟩
    · exact ⟨_, List.mem_append_right _ List.mem_cons_self, rfl, rfl⟩

/-- A message that was there already is no new one. -/
theorem createMessage_reply {now : Time} {authorID authorName clientMsgID body : String}
    {threadRoot : Int} {ch : Channel} {cs : ChannelState} {m : Message} {created : Bool}
    (h : (Store.createMessage now authorID authorName clientMsgID body threadRoot).plan ch cs =
      .ok (.reply (m, created))) : created = false := by
  unfold Store.createMessage at h
  dsimp only at h
  split at h
  · cases h
  split at h
  · cases h
    rfl
  split at h
  · cases h
  · cases h

/-- What a call leaves of the numbers: they go on, and none is taken back. -/
structure GoesOn (recs recs' : List Record) : Prop where
  numbered : Numbered recs'
  more : (creations recs).length ≤ (creations recs').length

theorem Legible.goesOn_run {α : Type} {mt : Mutator α} {ch : Channel} (h : Legible ch)
    (hnum : Numbered ch.acked) (hfew : (replayMessages ch.acked).nextSeq < 2 ^ 63 - 1) (env : Env)
    (hseq : ∀ ch₁ record next result,
      mt.plan ch₁ (replayMessages ch.acked) = .ok (.write record next result) →
      record.op = opCreate → record.seq = (replayMessages ch.acked).nextSeq) :
    GoesOn ch.acked (mt.run ch env).1.acked := by
  have hsame : GoesOn ch.acked ch.acked := ⟨hnum, Nat.le_refl _⟩
  obtain ⟨-, hacked, hload⟩ := h.channelState env
  have hran := mt.ran ch env
  generalize mt.run ch env = out at hran
  cases hran with
  | refused _ => exact hsame
  | unloaded _ hst =>
    rw [hst] at hacked
    exact hacked.symm ▸ hsame
  | failed _ hst _ =>
    rw [hst] at hacked
    exact hacked.symm ▸ hsame
  | replied _ hst _ =>
    rw [hst] at hacked
    exact hacked.symm ▸ hsame
  | torn _ hst _ _ =>
    rw [hst] at hacked
    exact hacked.symm ▸ hsame
  | @written ch₁ cs next record result f hcheck hst hplan happend =>
    rw [hst] at hacked hload
    obtain ⟨rfl, -⟩ := hload cs rfl
    show GoesOn ch.acked (ch₁.acked ++ [record])
    rw [show ch₁.acked = ch.acked from hacked]
    refine ⟨hnum.snoc (hseq ch₁ record next result hplan) hfew, ?_⟩
    rw [creations_snoc, List.length_append]
    omega

theorem Legible.goesOn {ch : Channel} (h : Legible ch) (hnum : Numbered ch.acked)
    (hfew : ch.state.nextSeq < 2 ^ 63 - 1) (env : Env) (op : Op) :
    GoesOn ch.acked (Chat.exec ch env op).acked := by
  rw [h.state_eq] at hfew
  cases op with
  | create authorID authorName clientMsgID body threadRoot =>
    exact h.goesOn_run hnum hfew env fun _ _ _ result hplan _ =>
      (createMessage_numbers hplan).1
  | edit seq body =>
    exact h.goesOn_run hnum hfew env fun _ _ _ _ hplan hop =>
      absurd hop (createsNone_editMessage env.now seq body _ _ _ _ _ hplan)
  | delete seq =>
    exact h.goesOn_run hnum hfew env fun _ _ _ _ hplan hop =>
      absurd hop (createsNone_deleteMessage env.now seq _ _ _ _ _ hplan)
  | react seq userID emoji =>
    exact h.goesOn_run hnum hfew env fun _ _ _ _ hplan hop =>
      absurd hop (createsNone_addReaction env.now seq userID emoji _ _ _ _ _ hplan)
  | unreact seq userID emoji =>
    exact h.goesOn_run hnum hfew env fun _ _ _ _ hplan hop =>
      absurd hop (createsNone_removeReaction env.now seq userID emoji _ _ _ _ _ hplan)
  | archive => exact ⟨hnum, Nat.le_refl _⟩
  | restart => exact ⟨hnum, Nat.le_refl _⟩

end FusionLocalServer.Chat
