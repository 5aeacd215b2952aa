import FusionLocalServer.Chat.Replay

/-!
# What survives a reload

The invariant of a channel (`Synced`): its log is the lines of the acknowledged records,
possibly with a torn line behind them; its memory, once loaded, is their replay. Every
operation keeps it, provided no record is written in full behind a torn line while the
channel stays loaded (`TailSafe`); a load cuts the torn line off first. Two results follow:
with appends that are all or nothing the memory is the replay of the log, and with torn
appends every acknowledged record is read back along every safe run. An unsafe run loses
what it acknowledged.
-/

namespace FusionLocalServer.Chat

open Lib

structure Synced (ch : Channel) : Prop where
  log : ∃ bs frag, ch.file.bytes = bs ++ frag ∧ logReader.Lines bs ch.acked ∧
    LineReader.Fragment frag
  loaded : ∀ cs, ch.loaded = some cs → cs = replayMessages ch.acked
  sound : ∀ record ∈ ch.acked, record.Sound

/-- No record is written in full behind a torn line: when a loaded channel's log does not
end with a line, the operation appends nothing, or its write fails again. -/
def TailSafe (ch : Channel) (e : Env × Op) : Prop :=
  ∀ cs record, ch.loaded = some cs → e.2.record? ch cs e.1.now = some record →
    record.marshal ≠ none → e.1.write = .full → EndsClean ch.file.bytes

/-- Every append writes its whole line or nothing. -/
def AllOrNothing (_ : Channel) (e : Env × Op) : Prop := e.1.write = .full ∨ e.1.write = .torn 0

theorem synced_newChannel (name : String) : Synced (newChannel name) where
  log := ⟨[], [], rfl, .nil, (nomatch ·)⟩
  loaded := fun _ h => (nomatch h)
  sound := fun _ h => (nomatch h)

/-- Replaying a log of lines gives their records; afterwards the file holds those lines,
and when the replay succeeds nothing else. -/
theorem replayLog_lines {f : LogFile} {bs frag : List UInt8} {recs : List Record}
    (hbytes : f.bytes = bs ++ frag) (hlines : logReader.Lines bs recs)
    (hfrag : LineReader.Fragment frag) (fault : Option LoadFault) :
    (∃ frag', (replayLog f fault).1.bytes = bs ++ frag' ∧ LineReader.Fragment frag') ∧
      ∀ recs', (replayLog f fault).2 = .ok recs' →
        recs' = recs ∧ (replayLog f fault).1.bytes = bs := by
  have hread := LineReader.read_lines hlines hfrag
  unfold replayLog
  split
  · exact ⟨⟨frag, hbytes, hfrag⟩, fun _ h => (nomatch h)⟩
  rw [hbytes, hread]
  simp only
  split
  · next hlt =>
    split
    · exact ⟨⟨frag, hbytes, hfrag⟩, fun _ h => (nomatch h)⟩
    · have htake : (f.bytes).take bs.length = bs := by rw [hbytes, List.take_left' rfl]
      refine ⟨⟨[], ?_, (nomatch ·)⟩, fun recs' h => ⟨(Except.ok.inj h).symm, ?_⟩⟩
      · rw [List.append_nil]
        exact htake
      · exact htake
  · next hle =>
    -- the lines are the whole file
    have hnil : frag = [] := by
      rw [List.length_append] at hle
      exact List.length_eq_zero_iff.mp (by omega)
    refine ⟨⟨frag, hbytes, hfrag⟩, fun recs' h => ⟨(Except.ok.inj h).symm, ?_⟩⟩
    show f.bytes = bs
    rw [hbytes, hnil, List.append_nil]

/-- With no fault on the way, the replay succeeds. -/
theorem replayLog_ok {f : LogFile} {bs frag : List UInt8} {recs : List Record}
    (hbytes : f.bytes = bs ++ frag) (hlines : logReader.Lines bs recs)
    (hfrag : LineReader.Fragment frag) : (replayLog f none).2 = .ok recs := by
  have hread := LineReader.read_lines hlines hfrag
  unfold replayLog
  rw [if_neg (by decide), hbytes, hread]
  simp only
  split
  · rfl
  · rfl

/-- Loading keeps the invariant; a channel that was not loaded is left with a clean log. -/
theorem Synced.channelState {ch : Channel} (h : Synced ch) (env : Env) :
    Synced (ch.channelState env).1 ∧ (ch.channelState env).1.acked = ch.acked ∧
      ∀ cs, (ch.channelState env).2 = .ok cs →
        (ch.channelState env).1.loaded = some cs ∧
        (ch.loaded = some cs ∧ (ch.channelState env).1 = ch ∨
          EndsClean (ch.channelState env).1.file.bytes) := by
  unfold Channel.channelState
  cases hl : ch.loaded with
  | some cs =>
    exact ⟨h, rfl, fun cs' hcs => ⟨by rw [hl, ← Except.ok.inj hcs],
      .inl ⟨by rw [← Except.ok.inj hcs], rfl⟩⟩⟩
  | none =>
    obtain ⟨bs, frag, hbytes, hlines, hfrag⟩ := h.log
    obtain ⟨⟨frag', hbytes', hfrag'⟩, hok⟩ := replayLog_lines hbytes hlines hfrag env.load
    cases hr : replayLog ch.file env.load with
    | mk f r =>
      rw [hr] at hbytes' hok
      have hfail : Synced { ch with file := f, loaded := none } :=
        { log := ⟨bs, frag', hbytes', hlines, hfrag'⟩, loaded := fun _ hcs => (nomatch hcs),
          sound := h.sound }
      cases r with
      | error e => exact ⟨hfail, rfl, fun _ hcs => (nomatch hcs)⟩
      | ok recs =>
        obtain ⟨rfl, hclean⟩ := hok recs rfl
        simp only
        split
        · exact ⟨hfail, rfl, fun _ hcs => (nomatch hcs)⟩
        · refine ⟨{ log := ⟨bs, frag', hbytes', hlines, hfrag'⟩, loaded := fun cs hcs => ?_,
                    sound := h.sound }, rfl, fun cs hcs => ⟨?_, .inr ?_⟩⟩
          · exact (Option.some.inj hcs).symm
          · exact congrArg some (Except.ok.inj hcs)
          · exact hclean ▸ hlines.endsClean

/-- The append of a mutator: the log stays lines, unless the record goes behind a torn
line. -/
theorem Synced.append {ch : Channel} (h : Synced ch) {cs next : ChannelState}
    {record : Record} (hloaded : ch.loaded = some cs) (hsound : record.Sound)
    (hversion : record.v = recordVersion) (hnext : next = replayRecord cs record)
    {w : WriteOutcome}
    (hsafe : record.marshal ≠ none → w = .full → EndsClean ch.file.bytes) :
    (∀ e, (appendRecord ch.file record w).2 = .error e →
      Synced { ch with file := (appendRecord ch.file record w).1 }) ∧
    ((appendRecord ch.file record w).2 = .ok () →
      Synced { ch with file := (appendRecord ch.file record w).1, loaded := some next,
                       acked := ch.acked ++ [record] }) := by
  obtain ⟨bs, frag, hbytes, hlines, hfrag⟩ := h.log
  unfold appendRecord
  cases hm : record.marshal with
  | none => exact ⟨fun _ _ => h, fun hok => (nomatch hok)⟩
  | some text =>
    have hline := line_of_marshal hsound hversion hm
    cases w with
    | torn n =>
      refine ⟨fun _ _ => { log := ⟨bs, frag ++ (encodeUtf8 text).take n, ?_, hlines, ?_⟩,
                           loaded := h.loaded, sound := h.sound }, fun hok => (nomatch hok)⟩
      · show ch.file.bytes ++ _ = _
        rw [hbytes, List.append_assoc]
      · intro hmem
        rcases List.mem_append.mp hmem with hmem | hmem
        · exact hfrag hmem
        · exact hline.oneLine (List.mem_of_mem_take hmem)
    | full =>
      have hclean := hsafe (by rw [hm]; exact Option.some_ne_none _) rfl
      rw [hbytes] at hclean
      obtain rfl := hfrag.eq_nil hclean
      rw [List.append_nil] at hbytes
      refine ⟨fun _ herr => (nomatch herr), fun _ =>
        { log := ⟨bs ++ (encodeUtf8 text ++ [newline]), [], ?_, hlines.snoc hline, (nomatch ·)⟩,
          loaded := fun cs' hcs' => ?_, sound := fun r hr => ?_ }⟩
      · show ch.file.bytes ++ _ = _
        rw [hbytes, List.append_nil]
      · rw [← Option.some.inj hcs', hnext, h.loaded cs hloaded]
        show _ = List.foldl _ _ (ch.acked ++ [record])
        rw [List.foldl_append]
        rfl
      · rcases List.mem_append.mp hr with hr | hr
        · exact h.sound r hr
        · exact List.mem_singleton.mp hr ▸ hsound

/-- A mutator whose records replay as meant keeps the invariant. -/
theorem Synced.run {α : Type} {mt : Mutator α} (hmt : Replays mt) {ch : Channel}
    (h : Synced ch) {env : Env}
    (hsafe : ∀ cs record, ch.loaded = some cs → mt.record? ch cs = some record →
      record.marshal ≠ none → env.write = .full → EndsClean ch.file.bytes) :
    Synced (mt.run ch env).1 := by
  unfold Mutator.run
  cases hcheck : mt.check with
  | some e => exact h
  | none =>
    obtain ⟨hsync, hacked, hload⟩ := h.channelState env
    cases hst : ch.channelState env with
    | mk ch₁ r =>
      rw [hst] at hsync hacked hload
      cases r with
      | error e => exact hsync
      | ok cs =>
        obtain ⟨hloaded, hwhere⟩ := hload cs rfl
        cases hplan : mt.plan ch₁ cs with
        | error e => simpa only [hplan] using hsync
        | ok p =>
          cases p with
          | reply result => simpa only [hplan] using hsync
          | write record next result =>
            have hseqs : SeqsOK cs := by
              rw [hsync.loaded cs hloaded]
              exact seqsOK_replayMessages hsync.sound
            have hsafe₁ : record.marshal ≠ none → env.write = .full →
                EndsClean ch₁.file.bytes := by
              intro hm hw
              rcases hwhere with ⟨hwas, rfl⟩ | hclean
              · refine hsafe cs record hwas ?_ hm hw
                rw [Mutator.record?, hcheck, hplan]
              · exact hclean
            obtain ⟨herr, hok⟩ := hsync.append hloaded (hmt.sound hseqs hplan)
              (hmt.version hplan) (hmt.next_eq hcheck hplan) hsafe₁
            simp only [hplan]
            cases happ : appendRecord ch₁.file record env.write with
            | mk f r =>
              rw [happ] at herr hok
              cases r with
              | error e => exact herr e rfl
              | ok _ => exact hok rfl

/-- Every safe operation keeps the invariant. -/
theorem Synced.exec {ch : Channel} (h : Synced ch) {env : Env} {op : Op}
    (hsafe : TailSafe ch (env, op)) : Synced (exec ch env op) := by
  cases op with
  | create => exact h.run (replays_createMessage ..) hsafe
  | edit => exact h.run (replays_editMessage ..) hsafe
  | delete => exact h.run (replays_deleteMessage ..) hsafe
  | react => exact h.run (replays_addReaction ..) hsafe
  | unreact => exact h.run (replays_removeReaction ..) hsafe
  | archive => exact { log := h.log, loaded := h.loaded, sound := h.sound }
  | restart => exact { log := h.log, loaded := fun _ hcs => (nomatch hcs), sound := h.sound }

/-! ## Appends that are all or nothing -/

/-- A log that ends with a line is not touched by loading it. -/
theorem replayLog_endsClean {f : LogFile} {bs frag : List UInt8} {recs : List Record}
    (hbytes : f.bytes = bs ++ frag) (hlines : logReader.Lines bs recs)
    (hfrag : LineReader.Fragment frag) (hclean : EndsClean f.bytes) (fault : Option LoadFault) :
    (replayLog f fault).1 = f := by
  obtain rfl : frag = [] := hfrag.eq_nil (hbytes ▸ hclean)
  have hread := LineReader.read_lines hlines hfrag
  unfold replayLog
  split
  · rfl
  · rw [hbytes, hread]
    simp only
    rw [List.append_nil, if_neg (Nat.lt_irrefl _)]

theorem endsClean_appendRecord {f : LogFile} (h : EndsClean f.bytes) (record : Record)
    {w : WriteOutcome} (hw : w = .full ∨ w = .torn 0) :
    EndsClean (appendRecord f record w).1.bytes := by
  unfold appendRecord
  cases record.marshal with
  | none => exact h
  | some text =>
    rcases hw with rfl | rfl
    · refine .inr ?_
      show (f.bytes ++ (encodeUtf8 text ++ [newline])).getLast? = _
      rw [← List.append_assoc, List.getLast?_concat]
    · show EndsClean (f.bytes ++ (encodeUtf8 text).take 0)
      rwa [List.take_zero, List.append_nil]

theorem endsClean_run {α : Type} (mt : Mutator α) {ch : Channel} (h : Synced ch)
    (hclean : EndsClean ch.file.bytes) {env : Env}
    (hw : env.write = .full ∨ env.write = .torn 0) :
    EndsClean (mt.run ch env).1.file.bytes := by
  have hload : (ch.channelState env).1.file = ch.file := by
    obtain ⟨bs, frag, hbytes, hlines, hfrag⟩ := h.log
    have hsame := replayLog_endsClean hbytes hlines hfrag hclean env.load
    unfold Channel.channelState
    split
    · rfl
    · split
      · next heq => rw [heq] at hsame; exact hsame
      · next heq =>
        rw [heq] at hsame
        split
        · exact hsame
        · exact hsame
  unfold Mutator.run
  split
  · exact hclean
  split
  · next heq =>
    rw [heq] at hload
    rw [show _ = _ from hload]
    exact hclean
  · next ch₁ cs heq =>
    rw [heq] at hload
    have hclean' : EndsClean ch₁.file.bytes := by rwa [← hload] at hclean
    split
    · exact hclean'
    · exact hclean'
    · next record _ _ _ =>
      have happ := endsClean_appendRecord hclean' record hw
      split
      · next heq => rw [heq] at happ; exact happ
      · next heq => rw [heq] at happ; exact happ

theorem endsClean_exec {ch : Channel} (h : Synced ch) (hclean : EndsClean ch.file.bytes)
    {env : Env} (op : Op) (hw : env.write = .full ∨ env.write = .torn 0) :
    EndsClean (exec ch env op).file.bytes := by
  cases op with
  | create => exact endsClean_run _ h hclean hw
  | edit => exact endsClean_run _ h hclean hw
  | delete => exact endsClean_run _ h hclean hw
  | react => exact endsClean_run _ h hclean hw
  | unreact => exact endsClean_run _ h hclean hw
  | archive => exact hclean
  | restart => exact hclean

/-- **The memory of a channel is the replay of its log.** After any calls of the mutators,
accepted or rejected, with restarts in between and every append all or nothing, replaying
the channel's log gives the state in memory: messages, indexes and next sequence number. -/
theorem replay_eq_memory (name : String) {es : List (Env × Op)} {ch : Channel}
    {cs : ChannelState} (h : Run Step AllOrNothing (newChannel name) es ch)
    (hloaded : ch.loaded = some cs) :
    ∃ f recs, replayLog ch.file none = (f, .ok recs) ∧ replayMessages recs = cs := by
  have hinv : Synced ch ∧ EndsClean ch.file.bytes := by
    refine h.invariant (P := fun ch => Synced ch ∧ EndsClean ch.file.bytes)
      ⟨synced_newChannel name, .inl rfl⟩ ?_
    rintro ch ⟨env, op⟩ _ ⟨hsync, hclean⟩ hw rfl
    exact ⟨hsync.exec fun _ _ _ _ _ _ => hclean, endsClean_exec hsync hclean op hw⟩
  obtain ⟨hsync, -⟩ := hinv
  obtain ⟨bs, frag, hbytes, hlines, hfrag⟩ := hsync.log
  refine ⟨(replayLog ch.file none).1, ch.acked, ?_, (hsync.loaded cs hloaded).symm⟩
  rw [← replayLog_ok hbytes hlines hfrag]

/-- A call at a fixed moment, with what its write comes to. -/
def callEnv (write : WriteOutcome) : Env where
  now := 63902908800000000000
  load := none
  write := write

/-- A message, a reply to it, a reaction, an edit, and the reply deleted again. -/
def threadRun : List (Env × Op) :=
  [(callEnv .full, .create "u1" "Ada" "m1" "first" 0),
   (callEnv .full, .create "u2" "Bob" "m2" "reply" 1),
   (callEnv .full, .react 1 "u2" "+1"),
   (callEnv .full, .edit 1 "first!"),
   (callEnv .full, .delete 2)]

def threadChannel : Channel :=
  threadRun.foldl (fun ch e => exec ch e.1 e.2) (newChannel "general")

theorem replay_eq_memory_threadChannel :
    ∃ cs, threadChannel.loaded = some cs ∧
      ∃ f recs, replayLog threadChannel.file none = (f, .ok recs) ∧ replayMessages recs = cs := by
  have hsome : threadChannel.loaded.isSome = true := by decide +kernel
  obtain ⟨cs, hcs⟩ := Option.isSome_iff_exists.mp hsome
  have hrun : Run Step AllOrNothing (newChannel "general") threadRun threadChannel :=
    Run.foldl threadRun (fun _ e he => .inl (by revert e he; decide)) _
  exact ⟨cs, hcs, replay_eq_memory "general" hrun hcs⟩

/-! ## Torn appends -/

/-- Reloading the channel yields every acknowledged record. -/
def Durable (ch : Channel) : Prop :=
  ∃ f recs, replayLog ch.file none = (f, .ok recs) ∧ ∀ record ∈ ch.acked, record ∈ recs

/-- **Acknowledged records survive torn appends** along every run in which no record is
written in full behind a torn line. -/
theorem durable_of_tailSafe (name : String) {es : List (Env × Op)} {ch : Channel}
    (h : Run Step TailSafe (newChannel name) es ch) : Durable ch := by
  have hsync : Synced ch := by
    refine h.invariant (synced_newChannel name) ?_
    rintro ch ⟨env, op⟩ _ hsync hsafe rfl
    exact hsync.exec hsafe
  obtain ⟨bs, frag, hbytes, hlines, hfrag⟩ := hsync.log
  refine ⟨(replayLog ch.file none).1, ch.acked, ?_, fun _ hr => hr⟩
  rw [← replayLog_ok hbytes hlines hfrag]

/-- A torn write, a restart that cuts it off, and a message after that. -/
def repairedRun : List (Env × Op) :=
  [(callEnv (.torn 10), .create "u1" "Ada" "m1" "first" 0),
   (callEnv .full, .restart),
   (callEnv .full, .create "u1" "Ada" "m2" "second" 0)]

def repairedChannel : Channel :=
  repairedRun.foldl (fun ch e => exec ch e.1 e.2) (newChannel "general")

theorem durable_of_tailSafe_repairedChannel :
    repairedChannel.acked.map Record.body = ["second"] ∧ Durable repairedChannel := by
  have hrun : Run Step TailSafe (newChannel "general") repairedRun repairedChannel :=
    Run.cons (fun _ _ h => (nomatch h)) rfl (Run.cons (fun _ _ _ h => (nomatch h)) rfl
      (Run.single (fun _ _ h => (nomatch h)) rfl))
  exact ⟨by decide +kernel, durable_of_tailSafe "general" hrun⟩

/-- Three messages; the write of the second stops after ten bytes. -/
def tornRun : List (Env × Op) :=
  [(callEnv .full, .create "u1" "Ada" "m1" "first" 0),
   (callEnv (.torn 10), .create "u1" "Ada" "m2" "second" 0),
   (callEnv .full, .create "u1" "Ada" "m3" "third" 0)]

def tornChannel : Channel :=
  tornRun.foldl (fun ch e => exec ch e.1 e.2) (newChannel "general")

/-- The third message is acknowledged, and a reload does not find it: its record was
written onto the torn one, and the reader stops there. -/
theorem not_durable_tornChannel :
    Run Step always (newChannel "general") tornRun tornChannel ∧
      tornChannel.acked.map Record.body = ["first", "third"] ∧ ¬ Durable tornChannel := by
  refine ⟨?_, by decide +kernel, ?_⟩
  · exact Run.foldl tornRun (fun _ _ _ => trivial) _
  · rintro ⟨f, recs, hread, hall⟩
    have hbodies : (replayLog tornChannel.file none).2.toOption.map (List.map Record.body) =
        some ["first"] := by decide +kernel
    rw [hread] at hbodies
    have hacked : "third" ∈ tornChannel.acked.map Record.body := by decide +kernel
    obtain ⟨record, hmem, hbody⟩ := List.mem_map.mp hacked
    have hrecs : "third" ∈ recs.map Record.body := List.mem_map.mpr ⟨record, hall record hmem, hbody⟩
    rw [Option.some.inj hbodies] at hrecs
    exact absurd hrecs (by decide)

end FusionLocalServer.Chat
