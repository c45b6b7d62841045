import Irosh.Server.ExecTask

/-!
# What a client gets of a command

Whatever is written, read, lost and late: what `capture_exec` has of the output is a first
part of what came out of the command's terminal, and the messages of the task come in one
order, output, exit status, end, close. With the exit status the output is complete if the
reader had seen the end of the terminal; without it the status is zero, as if all had been
well. That is so where the session is lost, and where the channel was idle for too long.
-/

namespace Irosh

open Exec

/-! ## Messages -/

/-- The output among some messages. -/
def outputIn (msgs : List ChannelMsg) : List UInt8 :=
  (msgs.map fun msg => match msg with
    | .data bytes => bytes
    | _ => []).flatten

@[simp] theorem outputIn_append (a b : List ChannelMsg) : outputIn (a ++ b) = outputIn a ++ outputIn b := by
  simp [outputIn]

theorem outputIn_data (chunks : List (List UInt8)) : outputIn (chunks.map .data) = chunks.flatten := by
  induction chunks with
  | nil => rfl
  | cons chunk chunks ih =>
      show chunk ++ outputIn (chunks.map .data) = chunk ++ chunks.flatten
      rw [ih]

namespace ExecOutput

theorem foldl_stdout (output : ExecOutput) (msgs : List ChannelMsg) :
    (msgs.foldl add output).stdout = output.stdout ++ outputIn msgs := by
  induction msgs generalizing output with
  | nil => exact (List.append_nil _).symm
  | cons msg msgs ih =>
      rw [List.foldl_cons, ih]
      cases msg with
      | data bytes => exact List.append_assoc _ _ _
      | success | exitStatus code | eof | close => rfl

theorem foldl_stderr (output : ExecOutput) (msgs : List ChannelMsg) :
    (msgs.foldl add output).stderr = output.stderr := by
  induction msgs generalizing output with
  | nil => rfl
  | cons msg msgs ih =>
      rw [List.foldl_cons, ih]
      cases msg <;> rfl

theorem foldl_exitStatus (output : ExecOutput) {msgs : List ChannelMsg}
    (h : ∀ code, ChannelMsg.exitStatus code ∉ msgs) :
    (msgs.foldl add output).exitStatus = output.exitStatus := by
  induction msgs generalizing output with
  | nil => rfl
  | cons msg msgs ih =>
      rw [List.foldl_cons, ih _ fun code hmem => h code (List.mem_cons_of_mem _ hmem)]
      cases msg with
      | exitStatus code => exact absurd List.mem_cons_self (h code)
      | success | data bytes | eof | close => rfl

end ExecOutput

namespace ExecTask

variable {s s' : ExecTask} {e : ExecEvent}

/-! ## The messages that are sent -/

/-- The messages before the report. -/
def leading (chunks : List (List UInt8)) : List ChannelMsg := .success :: chunks.map .data

theorem outputIn_leading (chunks : List (List UInt8)) : outputIn (leading chunks) = chunks.flatten :=
  outputIn_data chunks

theorem leading_snoc (chunks : List (List UInt8)) (chunk : List UInt8) :
    leading chunks ++ [.data chunk] = leading (chunks ++ [chunk]) := by
  simp [leading]

theorem mem_leading {chunks : List (List UInt8)} {msg : ChannelMsg} (h : msg ∈ leading chunks) :
    msg = .success ∨ ∃ bytes, msg = .data bytes := by
  rcases List.mem_cons.mp h with h | h
  · exact .inl h
  · obtain ⟨bytes, -, hbytes⟩ := List.mem_map.mp h
    exact .inr ⟨bytes, hbytes.symm⟩

/-- A first part of the report that is not empty begins with the exit status. -/
theorem report_prefix {status : Nat} {part : List ChannelMsg} (h : part <+: reportOf status)
    (hne : part ≠ []) : ∃ rest, part = .exitStatus status :: rest ∧ rest <+: [.eof, .close] := by
  cases part with
  | nil => exact absurd rfl hne
  | cons msg rest =>
      obtain ⟨hmsg, hrest⟩ := List.cons_prefix_cons.mp h
      exact ⟨rest, by rw [hmsg], hrest⟩

theorem outputIn_report {status : Nat} {part : List ChannelMsg} (h : part <+: reportOf status) :
    outputIn part = [] := by
  obtain ⟨rest, hrest⟩ := h
  have hall : outputIn part ++ outputIn rest = [] := by
    rw [← outputIn_append, hrest]
    rfl
  exact (List.append_eq_nil_iff.mp hall).1

/-- How much of the messages the client has had: output only, or all of it and some of the report. -/
theorem take_sent {chunks : List (List UInt8)} {status : Nat} {part : List ChannelMsg}
    (hpart : part <+: reportOf status) (n : Nat) :
    (leading chunks ++ part).take n <+: leading chunks
      ∨ ∃ rest, (leading chunks ++ part).take n = leading chunks ++ .exitStatus status :: rest
          ∧ rest <+: [.eof, .close] := by
  rw [List.take_append]
  by_cases hne : part.take (n - (leading chunks).length) = []
  · rw [hne, List.append_nil]
    exact .inl (List.take_prefix _ _)
  · have hlen : (leading chunks).length ≤ n := by
      by_contra hlt
      rw [Nat.sub_eq_zero_of_le (by omega)] at hne
      exact hne rfl
    rw [List.take_of_length_le hlen]
    obtain ⟨rest, hrest, hend⟩ := report_prefix ((List.take_prefix _ _).trans hpart) hne
    exact .inr ⟨rest, by rw [hrest], hend⟩

/-! ## What is kept -/

/-- What the reader holds. -/
def inHand (s : ExecTask) : List UInt8 :=
  match s.reader with
  | .sending chunk => chunk
  | .reading | .ended => []

/-- A status that is the command's own, or stands for one that is not known. -/
def Genuine (s : ExecTask) (status : Nat) : Prop :=
  s.child = some status ∨ status = 255 ∧ s.unknown = true

/-- Where the task stands in its report, of which the session has taken a part. -/
structure Reported (s : ExecTask) (status : Nat) (part : List ChannelMsg) : Prop where
  isPart : part <+: reportOf status
  before : (∀ left, s.pc ≠ .reporting left) → part = []
  left : ∀ left, s.pc = .reporting left → ∃ said, reportOf status = said ++ left ∧ part <+: said
    ∧ (s.gone = false → part = said)
  genuine : ∀ left, s.pc = .reporting left → s.Genuine status

/-- Output and a part of the report have been sent, and what the reader has not lost is all there. -/
def Said (s : ExecTask) : Prop :=
  ∃ chunks status part, s.sent = leading chunks ++ part ∧ s.Reported status part
    ∧ chunks.flatten <+: s.shown
    ∧ (s.reader ≠ .ended → s.shown = chunks.flatten ++ s.inHand ++ s.unread)
    ∧ (s.sawEnd = true → chunks.flatten = s.shown)

/-- What every step keeps. -/
structure Kept (s : ExecTask) : Prop where
  sent : s.Said
  ended : s.sawEnd = true → s.reader = .ended ∧ s.writers = false
  waiter : ∀ status, s.waiter = some status → s.Genuine status
  draining : ∀ status, s.pc = .draining status → s.Genuine status
  takenLe : s.taken ≤ s.sent.length
  output : s.output = (s.sent.take s.taken).foldl ExecOutput.add .default
  closed : s.captured = some .closed → .close ∈ s.sent.take s.taken ∨ s.reaped ≠ none
  reaped : s.reaped ≠ none → s.idleTimeout = true

theorem kept_started (idleTimeout : Bool) : (started idleTimeout).Kept where
  sent := by
    refine ⟨[], 0, [], rfl, ⟨List.nil_prefix, fun _ => rfl, fun _ h => (by cases h), fun _ h => by cases h⟩,
      List.nil_prefix, fun _ => rfl, fun h => by cases h⟩
  ended h := by cases h
  waiter _ h := by cases h
  draining _ h := by cases h
  takenLe := Nat.zero_le _
  output := rfl
  closed h := by cases h
  reaped h := absurd rfl h

/-- Whose step it is. -/
theorem step_cases (h : s.step e = some s') :
    s.polled = true ∧ s.readerStep e = some s' ∨ s.taskStep e = some s' ∨ s.worldStep e = some s' := by
  unfold step at h
  split at h
  · rename_i s₁ hread
    cases h
    split at hread
    · rename_i hpolled
      exact .inl ⟨hpolled, hread⟩
    · cases hread
  · split at h
    · rename_i s₁ htask
      cases h
      exact .inr (.inl htask)
    · exact .inr (.inr h)

theorem Genuine.mono {status : Nat} (h : s.Genuine status)
    (hchild : ∀ code, s.child = some code → s'.child = some code)
    (hunknown : s.unknown = true → s'.unknown = true) : s'.Genuine status := by
  rcases h with h | ⟨h, hu⟩
  · exact .inl (hchild status h)
  · exact .inr ⟨h, hunknown hu⟩

/-- The task stands where it stood. -/
theorem Reported.mono {status : Nat} {part : List ChannelMsg} (h : s.Reported status part)
    (hpc : s'.pc = s.pc) (hgone : s.gone = true → s'.gone = true)
    (hchild : ∀ code, s.child = some code → s'.child = some code)
    (hunknown : s.unknown = true → s'.unknown = true) : s'.Reported status part := by
  refine ⟨h.isPart, fun hb => h.before fun left hl => hb left (hpc.trans hl), fun left hl => ?_,
    fun left hl => (h.genuine left (hpc ▸ hl)).mono hchild hunknown⟩
  obtain ⟨said, hsaid, hpart, hall⟩ := h.left left (hpc ▸ hl)
  refine ⟨said, hsaid, hpart, fun hg => hall ?_⟩
  cases hg' : s.gone with
  | false => rfl
  | true =>
      rw [hgone hg'] at hg
      cases hg

/-- Neither the task nor the terminal has moved. -/
theorem Said.mono (h : s.Said) (hsent : s'.sent = s.sent) (hshown : s'.shown = s.shown)
    (hreader : s'.reader = s.reader) (hunread : s'.unread = s.unread) (hsaw : s'.sawEnd = s.sawEnd)
    (hpc : s'.pc = s.pc) (hgone : s.gone = true → s'.gone = true)
    (hchild : ∀ code, s.child = some code → s'.child = some code)
    (hunknown : s.unknown = true → s'.unknown = true) : s'.Said := by
  obtain ⟨chunks, status, part, hmsgs, hrep, hfirst, hlive, hend⟩ := h
  have hhand : s'.inHand = s.inHand := by rw [inHand, inHand, hreader]
  refine ⟨chunks, status, part, hsent.trans hmsgs, hrep.mono hpc hgone hchild hunknown, ?_, ?_, ?_⟩
  · rw [hshown]
    exact hfirst
  · rw [hshown, hreader, hhand, hunread]
    exact hlive
  · rw [hshown, hsaw]
    exact hend

theorem not_reporting (h : s.polled = true) : ∀ left, s.pc ≠ .reporting left := by
  intro left hl
  rw [polled, hl] at h
  cases h

/-- What the client has had does not change when a message is added. -/
theorem Kept.take_pushed (h : s.Kept) (msg : ChannelMsg) :
    (s.sent ++ [msg]).take s.taken = s.sent.take s.taken :=
  List.take_append_of_le_length h.takenLe

theorem Kept.takenLe_pushed (h : s.Kept) (msg : ChannelMsg) : s.taken ≤ (s.sent ++ [msg]).length := by
  have hle := h.takenLe
  rw [List.length_append]
  omega

theorem Kept.closed_pushed (h : s.Kept) (msg : ChannelMsg) (hc : s.captured = some .closed) :
    .close ∈ (s.sent ++ [msg]).take s.taken ∨ s.reaped ≠ none := by
  rw [h.take_pushed]
  exact h.closed hc

/-- The reader gets on. -/
theorem Kept.readerStep (h : s.Kept) (hpolled : s.polled = true) (hs : s.readerStep e = some s') :
    s'.Kept := by
  obtain ⟨chunks, status, part, hsent, hrep, hfirst, hlive, hend⟩ := h.sent
  have hpart : part = [] := hrep.before (not_reporting hpolled)
  cases e with
  | reads count =>
      unfold ExecTask.readerStep at hs
      dsimp only at hs
      split at hs
      · rename_i hcan
        obtain ⟨hreading, -⟩ := hcan
        cases hs
        have hwritten := hlive fun hr => by rw [hreading] at hr; cases hr
        refine { h with
          sent := ⟨chunks, status, part, hsent, hrep.mono rfl id (fun _ => id) id, hfirst, fun _ => ?_, hend⟩
          ended := fun hsaw => ?_ }
        · rw [inHand, hreading, List.append_nil] at hwritten
          show s.shown = chunks.flatten ++ s.unread.take count ++ s.unread.drop count
          rw [List.append_assoc, List.take_append_drop]
          exact hwritten
        · have hended := (h.ended hsaw).1
          rw [hreading] at hended
          cases hended
      · cases hs
  | forwards =>
      unfold ExecTask.readerStep at hs
      dsimp only at hs
      split at hs
      · rename_i chunk hreader
        have hwritten := hlive fun hr => by rw [hreader] at hr; cases hr
        have hnotSeen : s.sawEnd ≠ true := fun hsaw => by
          have hended := (h.ended hsaw).1
          rw [hreader] at hended
          cases hended
        split at hs
        · cases hs
          exact { h with
            sent := ⟨chunks, status, part, hsent, hrep.mono rfl id (fun _ => id) id, hfirst,
              fun hr => absurd rfl hr, hend⟩
            ended := fun hsaw => absurd hsaw hnotSeen }
        · rename_i hgone
          rw [push, if_neg hgone] at hs
          cases hs
          rw [inHand, hreader] at hwritten
          have hnew : s.sent ++ [.data chunk] = leading (chunks ++ [chunk]) ++ part := by
            rw [hsent, hpart, List.append_nil, List.append_nil, leading_snoc]
          have hall : s.shown = (chunks ++ [chunk]).flatten ++ s.unread := by
            rw [hwritten, List.flatten_append, List.flatten_singleton]
          refine { h with
            sent := ⟨chunks ++ [chunk], status, part, hnew, hrep.mono rfl id (fun _ => id) id, ?_,
              fun _ => ?_, fun hsaw => absurd hsaw hnotSeen⟩
            ended := fun hsaw => absurd hsaw hnotSeen
            takenLe := h.takenLe_pushed _
            output := h.output.trans (by rw [h.take_pushed])
            closed := h.closed_pushed _ }
          · exact ⟨s.unread, hall.symm⟩
          · show s.shown = (chunks ++ [chunk]).flatten ++ [] ++ s.unread
            rw [List.append_nil]
            exact hall
      · cases hs
      · cases hs
  | seesEnd =>
      unfold ExecTask.readerStep at hs
      dsimp only at hs
      split at hs
      · rename_i hcan
        obtain ⟨hreading, hunread, hwriters⟩ := hcan
        cases hs
        have hwritten := hlive fun hr => by rw [hreading] at hr; cases hr
        rw [inHand, hreading, hunread, List.append_nil, List.append_nil] at hwritten
        exact { h with
          sent := ⟨chunks, status, part, hsent, hrep.mono rfl id (fun _ => id) id, hfirst,
            fun hr => absurd rfl hr, fun _ => hwritten.symm⟩
          ended := fun _ => ⟨rfl, hwriters⟩ }
      · cases hs
  | readerStops =>
      unfold ExecTask.readerStep at hs
      dsimp only at hs
      split at hs
      · cases hs
        exact { h with
          sent := ⟨chunks, status, part, hsent, hrep.mono rfl id (fun _ => id) id, hfirst,
            fun hr => absurd rfl hr, hend⟩
          ended := fun hsaw => ⟨rfl, (h.ended hsaw).2⟩ }
      · cases hs
  | writes _ | setsOutput _ | hangsUp | exits _ | waited _ | childFirst | readerFirst | drained | drainTimeout
  | childLater | waitTimeout | report | reap | sessionEnds | receive | lose => cases hs

/-- The report is begun. -/
theorem Kept.begin {status : Nat} {unknown : Bool} (h : s.Kept) (hpc : ∀ left, s.pc ≠ .reporting left)
    (hunknown : s.unknown = true → unknown = true)
    (hgenuine : s.child = some status ∨ status = 255 ∧ unknown = true) :
    Kept { s with pc := .reporting (reportOf status), unknown := unknown } := by
  obtain ⟨chunks, status', part, hsent, hrep, hfirst, hlive, hend⟩ := h.sent
  have hpart : part = [] := hrep.before hpc
  refine { h with
    sent := ⟨chunks, status, part, hsent, ⟨?_, ?_, ?_, ?_⟩, hfirst, hlive, hend⟩
    waiter := ?_
    draining := ?_ }
  · exact hpart ▸ List.nil_prefix
  · exact fun hb => absurd rfl (hb (reportOf status))
  · intro left hl
    cases hl
    refine ⟨[], rfl, ?_, fun _ => hpart⟩
    exact hpart ▸ List.nil_prefix
  · exact fun _ _ => hgenuine
  · exact fun code hw => (h.waiter code hw).mono (fun _ => id) hunknown
  · intro code hd
    cases hd

/-- The task goes from one wait to the other. -/
theorem Kept.turnTo {pc : ExecPc} (h : s.Kept) (hpc : ∀ left, s.pc ≠ .reporting left)
    (hnext : ∀ left, pc ≠ .reporting left) (hdraining : ∀ status, pc = .draining status → s.Genuine status) :
    Kept { s with pc := pc } := by
  obtain ⟨chunks, status, part, hsent, hrep, hfirst, hlive, hend⟩ := h.sent
  have hrep' : Reported { s with pc := pc } status part :=
    ⟨hrep.isPart, fun _ => hrep.before hpc, fun left hl => absurd hl (hnext left),
      fun left hl => absurd hl (hnext left)⟩
  exact { h with
    sent := ⟨chunks, status, part, hsent, hrep', hfirst, hlive, hend⟩
    draining := hdraining }

/-- The next message of the report. -/
theorem Kept.report {msg : ChannelMsg} {left : List ChannelMsg} (h : s.Kept)
    (hpc : s.pc = .reporting (msg :: left)) : Kept { s.push msg with pc := .reporting left } := by
  obtain ⟨chunks, status, part, hsent, hrep, hfirst, hlive, hend⟩ := h.sent
  obtain ⟨said, hsaid, hpart, hall⟩ := hrep.left _ hpc
  have hsaid' : reportOf status = (said ++ [msg]) ++ left := by rw [List.append_assoc]; exact hsaid
  have hgenuine : s.Genuine status := hrep.genuine _ hpc
  unfold push
  split
  · rename_i hgone
    refine { h with
      sent := ⟨chunks, status, part, hsent, ⟨hrep.isPart, fun hb => absurd rfl (hb left), ?_,
        fun _ _ => hgenuine⟩, hfirst, hlive, hend⟩
      draining := fun _ hd => by cases hd }
    intro left' hl
    cases hl
    refine ⟨said ++ [msg], hsaid', hpart.trans (List.prefix_append _ _), fun hg => ?_⟩
    have hg' : s.gone = false := hg
    rw [hgone] at hg'
    cases hg'
  · rename_i hgone
    have heq : part = said := hall (by simpa using hgone)
    have hnew : s.sent ++ [msg] = leading chunks ++ (part ++ [msg]) := by rw [hsent, List.append_assoc]
    refine { h with
      sent := ⟨chunks, status, part ++ [msg], hnew, ⟨?_, fun hb => absurd rfl (hb left), ?_,
        fun _ _ => hgenuine⟩, hfirst, hlive, hend⟩
      draining := fun _ hd => (by cases hd)
      takenLe := h.takenLe_pushed _
      output := h.output.trans (by rw [h.take_pushed])
      closed := h.closed_pushed _ }
    · rw [heq, hsaid']
      exact List.prefix_append _ _
    · intro left' hl
      cases hl
      exact ⟨said ++ [msg], hsaid', heq ▸ List.prefix_refl _, fun _ => by rw [heq]⟩

theorem Kept.taskStep (h : s.Kept) (hs : s.taskStep e = some s') : s'.Kept := by
  cases e with
  | childFirst =>
      unfold ExecTask.taskStep at hs
      dsimp only at hs
      split at hs
      · rename_i status hpc hw
        cases hs
        refine h.turnTo (fun left hl => ?_) (fun left hl => by cases hl) fun status' hd => ?_
        · rw [hpc] at hl
          cases hl
        · cases hd
          exact h.waiter status hw
      · cases hs
  | readerFirst =>
      unfold ExecTask.taskStep at hs
      dsimp only at hs
      split at hs
      · rename_i hcan
        cases hs
        refine h.turnTo (fun left hl => ?_) (fun left hl => by cases hl) fun status' hd => by cases hd
        rw [hcan.1] at hl
        cases hl
      · cases hs
  | drained =>
      unfold ExecTask.taskStep at hs
      dsimp only at hs
      split at hs
      · rename_i status hpc
        split at hs
        · cases hs
          exact h.begin (fun left hl => by rw [hpc] at hl; cases hl) id (h.draining status hpc)
        · cases hs
      · cases hs
  | drainTimeout =>
      unfold ExecTask.taskStep at hs
      dsimp only at hs
      split at hs
      · rename_i status hpc
        cases hs
        exact h.begin (fun left hl => by rw [hpc] at hl; cases hl) id (h.draining status hpc)
      · cases hs
  | childLater =>
      unfold ExecTask.taskStep at hs
      dsimp only at hs
      split at hs
      · rename_i status hpc hw
        cases hs
        exact h.begin (fun left hl => by rw [hpc] at hl; cases hl) id (h.waiter status hw)
      · cases hs
  | waitTimeout =>
      unfold ExecTask.taskStep at hs
      dsimp only at hs
      split at hs
      · rename_i hpc
        cases hs
        exact h.begin (fun left hl => by rw [hpc] at hl; cases hl) (fun _ => rfl) (.inr ⟨rfl, rfl⟩)
      · cases hs
  | report =>
      unfold ExecTask.taskStep at hs
      dsimp only at hs
      split at hs
      · rename_i msg left hpc
        cases hs
        exact h.report hpc
      · cases hs
  | writes _ | setsOutput _ | hangsUp | exits _ | waited _ | reads _ | forwards | seesEnd | readerStops | reap
  | sessionEnds | receive | lose => cases hs

theorem shown_write (s : ExecTask) (onlcr : Bool) (bytes unread : List UInt8) :
    { s with written := s.written ++ [(onlcr, bytes)], unread := unread }.shown
      = s.shown ++ terminalOutput onlcr bytes := by
  simp [shown]

/-- The client has the reaper's end of the channel, or the next message of the task. -/
theorem receive_cases (h : s.worldStep .receive = some s') :
    s.reaped = some s.taken ∧ s' = { s with captured := some .closed }
      ∨ ∃ msg, s.sent[s.taken]? = some msg
          ∧ s' = { s with
              taken := s.taken + 1, output := s.output.add msg
              captured := if msg = .close then some .closed else none } := by
  unfold ExecTask.worldStep at h
  dsimp only at h
  split at h
  · cases h
  · split at h
    · rename_i hreaped
      cases h
      exact .inl ⟨hreaped, rfl⟩
    · split at h
      · rename_i msg hmsg
        cases h
        exact .inr ⟨msg, hmsg, rfl⟩
      · cases h

theorem Kept.worldStep (h : s.Kept) (hs : s.worldStep e = some s') : s'.Kept := by
  cases e with
  | writes bytes =>
      unfold ExecTask.worldStep at hs
      dsimp only at hs
      split at hs
      · rename_i hwriters
        cases hs
        obtain ⟨chunks, status, part, hsent, hrep, hfirst, hlive, hend⟩ := h.sent
        refine { h with
          sent := ⟨chunks, status, part, hsent, hrep.mono rfl id (fun _ => id) id, ?_, fun hr => ?_,
            fun hsaw => ?_⟩ }
        · rw [shown_write]
          exact hfirst.trans (List.prefix_append _ _)
        · rw [shown_write, hlive hr, List.append_assoc (chunks.flatten ++ s.inHand)]
          rfl
        · -- nobody has the terminal open any more
          have hclosed := (h.ended hsaw).2
          rw [hwriters] at hclosed
          cases hclosed
      · cases hs
  | setsOutput onlcr =>
      unfold ExecTask.worldStep at hs
      dsimp only at hs
      split at hs
      · cases hs
        exact { h with sent := h.sent.mono rfl rfl rfl rfl rfl rfl id (fun _ => id) id }
      · cases hs
  | hangsUp =>
      cases hs
      exact { h with
        sent := h.sent.mono rfl rfl rfl rfl rfl rfl id (fun _ => id) id
        ended := fun hsaw => ⟨(h.ended hsaw).1, rfl⟩ }
  | exits code =>
      unfold ExecTask.worldStep at hs
      dsimp only at hs
      split at hs
      · rename_i hrunning
        cases hs
        have hchild : ∀ code', s.child = some code' → some code = some code' := by
          intro code' hc
          rw [hrunning] at hc
          cases hc
        exact { h with
          sent := h.sent.mono rfl rfl rfl rfl rfl rfl id hchild id
          waiter := fun st hw => (h.waiter st hw).mono hchild id
          draining := fun st hd => (h.draining st hd).mono hchild id }
      · cases hs
  | waited ok =>
      unfold ExecTask.worldStep at hs
      dsimp only at hs
      split at hs
      · rename_i code hc hw
        cases ok with
        | true =>
            cases hs
            refine { h with
              sent := h.sent.mono rfl rfl rfl rfl rfl rfl id (fun _ => id) id
              waiter := fun st hw' => ?_ }
            cases hw'
            exact .inl hc
        | false =>
            cases hs
            have hunknown : s.unknown = true → true = true := fun _ => rfl
            refine { h with
              sent := h.sent.mono rfl rfl rfl rfl rfl rfl id (fun _ => id) hunknown
              waiter := fun st hw' => ?_
              draining := fun st hd => (h.draining st hd).mono (fun _ => id) hunknown }
            cases hw'
            exact .inr ⟨rfl, rfl⟩
      · cases hs
  | reap =>
      unfold ExecTask.worldStep at hs
      dsimp only at hs
      split at hs
      · rename_i hcan
        cases hs
        exact { h with
          sent := h.sent.mono rfl rfl rfl rfl rfl rfl id (fun _ => id) id
          closed := fun _ => .inr (Option.some_ne_none _)
          reaped := fun _ => hcan.1 }
      · cases hs
  | sessionEnds =>
      cases hs
      exact { h with sent := h.sent.mono rfl rfl rfl rfl rfl rfl (fun _ => rfl) (fun _ => id) id }
  | receive =>
      rcases receive_cases hs with ⟨hreaped, rfl⟩ | ⟨msg, hmsg, rfl⟩
      · have hclosed : s.reaped ≠ none := by
          rw [hreaped]
          exact Option.some_ne_none _
        exact { h with
          sent := h.sent.mono rfl rfl rfl rfl rfl rfl id (fun _ => id) id
          closed := fun _ => .inr hclosed }
      · obtain ⟨hlt, hget⟩ := List.getElem?_eq_some_iff.mp hmsg
        have htake : s.sent.take (s.taken + 1) = s.sent.take s.taken ++ [msg] := by
          rw [List.take_add_one, hmsg]
          rfl
        refine { h with
          sent := h.sent.mono rfl rfl rfl rfl rfl rfl id (fun _ => id) id
          takenLe := hlt
          output := ?_
          closed := fun hc => .inl ?_ }
        · show s.output.add msg = (s.sent.take (s.taken + 1)).foldl ExecOutput.add .default
          rw [htake, List.foldl_append, ← h.output]
          rfl
        · show ChannelMsg.close ∈ s.sent.take (s.taken + 1)
          rw [htake]
          by_cases hclose : msg = .close
          · exact List.mem_append_right _ (List.mem_singleton.mpr hclose.symm)
          · dsimp only at hc
            rw [if_neg hclose] at hc
            cases hc
  | lose =>
      unfold ExecTask.worldStep at hs
      dsimp only at hs
      split at hs
      · cases hs
        exact { h with
          sent := h.sent.mono rfl rfl rfl rfl rfl rfl id (fun _ => id) id
          closed := fun hc => by cases hc }
      · cases hs
  | reads _ | forwards | seesEnd | readerStops | childFirst | readerFirst | drained | drainTimeout
  | childLater | waitTimeout | report => cases hs

@[simp] theorem push_idleTimeout (s : ExecTask) (msg : ChannelMsg) :
    (s.push msg).idleTimeout = s.idleTimeout := by
  unfold push
  split <;> rfl

/-- How the server was started does not change. -/
theorem step_idleTimeout (hs : s.step e = some s') : s'.idleTimeout = s.idleTimeout := by
  rcases step_cases hs with ⟨-, hs⟩ | hs | hs
  · unfold ExecTask.readerStep at hs
    split at hs <;> (try split at hs) <;> (try split at hs) <;> cases hs <;> simp
  · unfold ExecTask.taskStep at hs
    split at hs <;> (try split at hs) <;> (try split at hs) <;> cases hs <;> simp
  · unfold ExecTask.worldStep at hs
    split at hs <;> (try split at hs) <;> (try split at hs) <;> (try split at hs) <;> cases hs <;> simp

theorem Kept.step (h : s.Kept) (hs : s.step e = some s') : s'.Kept := by
  rcases step_cases hs with ⟨hpolled, hs⟩ | hs | hs
  · exact h.readerStep hpolled hs
  · exact h.taskStep hs
  · exact h.worldStep hs

/-! ## What the client has -/

/-- Without an exit status the client has had a first part of the output, and with one all that was sent
of it. -/
theorem Kept.had (h : s.Kept) :
    ¬ s.told ∧ s.output.stdout <+: s.shown ∧ s.output.exitStatus = 0
        ∧ (s.captured = some .closed → s.reaped ≠ none)
      ∨ s.told ∧ s.output.stdout <+: s.shown ∧ (s.sawEnd = true → s.output.stdout = s.shown)
        ∧ s.Genuine s.output.exitStatus := by
  obtain ⟨chunks, status, part, hsent, hrep, hfirst, -, hend⟩ := h.sent
  have hout := h.output
  rw [hsent] at hout
  have hnone : ∀ code, ChannelMsg.exitStatus code ∉ leading chunks := by
    intro code hmem
    rcases mem_leading hmem with hmsg | ⟨bytes, hmsg⟩ <;> cases hmsg
  rcases @take_sent chunks status part hrep.isPart s.taken with hlead | ⟨rest, htake, hrest⟩
  · refine .inl ⟨?_, ?_, ?_, fun hclosed => ?_⟩
    · rintro ⟨code, hmem⟩
      rw [hsent] at hmem
      exact hnone code (hlead.subset hmem)
    · rw [hout, ExecOutput.foldl_stdout]
      obtain ⟨more, hmore⟩ := hlead
      have hall : outputIn ((leading chunks ++ part).take s.taken) ++ outputIn more = chunks.flatten := by
        rw [← outputIn_append, hmore, outputIn_leading]
      exact (List.IsPrefix.trans ⟨_, hall⟩ hfirst)
    · rw [hout]
      exact ExecOutput.foldl_exitStatus _ fun code hmem => hnone code (hlead.subset hmem)
    · rcases h.closed hclosed with hmem | hreaped
      · rw [hsent] at hmem
        rcases mem_leading (hlead.subset hmem) with hmsg | ⟨bytes, hmsg⟩ <;> cases hmsg
      · exact hreaped
  · have hstdout : s.output.stdout = chunks.flatten := by
      rw [hout, htake, ExecOutput.foldl_stdout]
      have hquiet : outputIn (.exitStatus status :: rest) = [] :=
        outputIn_report (List.cons_prefix_cons.mpr ⟨rfl, hrest⟩)
      rw [outputIn_append, hquiet, outputIn_leading]
      exact List.append_nil _
    have hstatus : s.output.exitStatus = status := by
      rw [hout, htake, List.foldl_append, List.foldl_cons, ExecOutput.foldl_exitStatus]
      · rfl
      · intro code hmem
        have hend := hrest.subset hmem
        simp at hend
    have hgenuine : s.Genuine status := by
      cases hpc : s.pc with
      | reporting left => exact hrep.genuine left hpc
      | racing | draining st | awaiting =>
          -- nothing of the report has been sent yet
          have hnil : part = [] := hrep.before fun left hl => by rw [hpc] at hl; cases hl
          rw [hnil, List.append_nil] at htake
          have hmem : ChannelMsg.exitStatus status ∈ leading chunks := by
            refine (List.take_prefix s.taken (leading chunks)).subset ?_
            rw [htake]
            exact List.mem_append_right _ List.mem_cons_self
          exact absurd hmem (hnone status)
    refine .inr ⟨⟨status, ?_⟩, ?_, fun hsaw => ?_, ?_⟩
    · rw [hsent, htake]
      exact List.mem_append_right _ List.mem_cons_self
    · rw [hstdout]
      exact hfirst
    · rw [hstdout]
      exact hend hsaw
    · rw [hstatus]
      exact hgenuine

/-! ## The end of the task -/

theorem step_own (he : isOwn e = true) : s.step e = s.taskStep e := by
  have hreader : s.readerStep e = none := by
    cases e with
    | childFirst | readerFirst | drainTimeout | waitTimeout | report => rfl
    | _ => cases he
  have hworld : s.worldStep e = none := by
    cases e with
    | childFirst | readerFirst | drainTimeout | waitTimeout | report => rfl
    | _ => cases he
  unfold step
  rw [hreader, hworld, ite_self]
  cases s.taskStep e <;> rfl

/-- Some steps of its own, and the task is over. -/
def EndsWithin (s : ExecTask) (n : Nat) : Prop :=
  ∃ own, own.length ≤ n ∧ (∀ e ∈ own, isOwn e = true) ∧ ∃ s', exec ExecTask.step s own = some s' ∧ s'.finished

theorem EndsWithin.cons {n : Nat} (he : isOwn e = true) (hs : s.taskStep e = some s') (h : s'.EndsWithin n) :
    s.EndsWithin (n + 1) := by
  obtain ⟨own, hlen, hown, s₁, hx, hfinished⟩ := h
  refine ⟨e :: own, Nat.succ_le_succ hlen, ?_, s₁, ?_, hfinished⟩
  · rintro e' (_ | ⟨_, hmem⟩)
    · exact he
    · exact hown e' hmem
  · rw [exec_cons, step_own he, hs]
    exact hx

theorem endsWithin_report (left : List ChannelMsg) (hpc : s.pc = .reporting left) :
    s.EndsWithin left.length := by
  induction left generalizing s with
  | nil => exact ⟨[], Nat.le_refl _, fun _ h => (by cases h), s, rfl, hpc⟩
  | cons msg left ih =>
      have hs : s.taskStep .report = some { s.push msg with pc := .reporting left } := by
        rw [ExecTask.taskStep, hpc]
      exact .cons rfl hs (ih rfl)

theorem Kept.ends (h : s.Kept) (hdone : s.waiter ≠ none ∨ s.reader = .ended) : s.EndsWithin 5 := by
  have hmono {n : Nat} (hn : n ≤ 5) (hends : s.EndsWithin n) : s.EndsWithin 5 := by
    obtain ⟨own, hlen, hrest⟩ := hends
    exact ⟨own, by omega, hrest⟩
  cases hpc : s.pc with
  | reporting left =>
      obtain ⟨chunks, status, part, -, hrep, -⟩ := h.sent
      obtain ⟨said, hsaid, -⟩ := hrep.left left hpc
      have hlen := congrArg List.length hsaid
      rw [List.length_append] at hlen
      have hthree : (reportOf status).length = 3 := rfl
      exact hmono (by omega) (endsWithin_report left hpc)
  | draining status =>
      have hs : s.taskStep .drainTimeout = some { s with pc := .reporting (reportOf status) } := by
        rw [ExecTask.taskStep, hpc]
      exact hmono (n := 4) (by omega) (.cons rfl hs (endsWithin_report (reportOf status) rfl))
  | awaiting =>
      have hs :
          s.taskStep .waitTimeout = some { s with pc := .reporting (reportOf 255), unknown := true } := by
        rw [ExecTask.taskStep, if_pos hpc]
      exact hmono (n := 4) (by omega) (.cons rfl hs (endsWithin_report (reportOf 255) rfl))
  | racing =>
      rcases hdone with hwaiter | hended
      · obtain ⟨status, hw⟩ := Option.ne_none_iff_exists'.mp hwaiter
        have hs : s.taskStep .childFirst = some { s with pc := .draining status } := by
          rw [ExecTask.taskStep, hpc, hw]
        exact .cons rfl hs (.cons (e := .drainTimeout) rfl rfl (endsWithin_report (reportOf status) rfl))
      · have hs : s.taskStep .readerFirst = some { s with pc := .awaiting } := by
          rw [ExecTask.taskStep, if_pos ⟨hpc, hended⟩]
        exact .cons rfl hs (.cons (e := .waitTimeout) rfl rfl (endsWithin_report (reportOf 255) rfl))

end ExecTask

namespace Proof

open ExecTask

/-- In every order of what the processes, the task, the reaper, the session and the client do:
`capture_exec` has a first part of what came out of the command's terminal, and nothing else. Once it has
been told an exit status, that is the command's own, unless this could not be found out in time and 255
stands for it; and the output is all there, if the reader has seen the end of the terminal. If it has not
been told, the status is 0. The end of the channel comes after the exit status, unless the reaper has
closed the channel, which it does only where there is an idle timeout. And once the process or the reader
is done, the task is over within five steps that wait for nobody. -/
theorem capture_exec_output (idleTimeout : Bool) (events : List ExecEvent) (s : ExecTask)
    (hx : exec ExecTask.step (.started idleTimeout) events = some s) :
    s.output.stdout <+: s.shown
      ∧ s.output.stderr = []
      ∧ (s.told → (s.child = some s.output.exitStatus ∨ s.output.exitStatus = 255 ∧ s.unknown = true)
          ∧ (s.sawEnd = true → s.output.stdout = s.shown))
      ∧ (¬ s.told → s.output.exitStatus = 0)
      ∧ (s.captured = some .closed → s.told ∨ idleTimeout = true ∧ s.reaped ≠ none)
      ∧ (s.waiter ≠ none ∨ s.reader = .ended →
          ∃ own, own.length ≤ 5 ∧ (∀ e ∈ own, isOwn e = true)
            ∧ ∃ s', exec ExecTask.step s own = some s' ∧ s'.finished) := by
  have hkept : s.Kept := exec_invariant_all (fun _ _ _ h hs => Kept.step h hs) (kept_started idleTimeout) hx
  have htimeout : s.idleTimeout = idleTimeout :=
    exec_invariant_all (I := fun s => s.idleTimeout = idleTimeout)
      (fun _ _ _ h hs => (step_idleTimeout hs).trans h) rfl hx
  have hstderr : s.output.stderr = [] := by
    rw [hkept.output, ExecOutput.foldl_stderr]
    rfl
  rcases hkept.had with ⟨hnot, hfirst, hzero, hopen⟩ | ⟨htold, hfirst, hall, hgenuine⟩
  · have hreaped (hclosed : s.captured = some .closed) : idleTimeout = true ∧ s.reaped ≠ none :=
      ⟨htimeout.symm.trans (hkept.reaped (hopen hclosed)), hopen hclosed⟩
    exact ⟨hfirst, hstderr, fun h => absurd h hnot, fun _ => hzero, fun h => .inr (hreaped h), hkept.ends⟩
  · exact ⟨hfirst, hstderr, fun _ => ⟨hgenuine, hall⟩, fun h => absurd htold h,
      fun _ => .inl htold, hkept.ends⟩

/-- A command that writes a line and exits with 3, with no idle timeout. -/
theorem capture_exec_output_line :
    ∃ s, exec ExecTask.step (.started false)
        [.writes [0x6f, 0x6b, 0x0a], .exits 3, .reads 4, .hangsUp, .waited true, .forwards,
          .childFirst, .seesEnd,
          .drained, .report, .report, .report, .receive, .receive, .receive, .receive, .receive] = some s
      ∧ s.captured = some .closed ∧ s.shown = [0x6f, 0x6b, 0x0d, 0x0a] ∧ s.output.stdout = s.shown
      ∧ (s.child = some s.output.exitStatus ∨ s.output.exitStatus = 255 ∧ s.unknown = true) := by
  have hrun : (exec ExecTask.step (.started false)
      [.writes [0x6f, 0x6b, 0x0a], .exits 3, .reads 4, .hangsUp, .waited true, .forwards,
        .childFirst, .seesEnd,
        .drained, .report, .report, .report, .receive, .receive, .receive, .receive, .receive]).map
        (fun s => (s.captured, s.shown, s.sawEnd))
      = some (some .closed, [0x6f, 0x6b, 0x0d, 0x0a], true) := by decide +kernel
  obtain ⟨s, hs, heq⟩ := Option.map_eq_some_iff.mp hrun
  obtain ⟨hclosed, hshown, hsaw⟩ :
      s.captured = some .closed ∧ s.shown = [0x6f, 0x6b, 0x0d, 0x0a] ∧ s.sawEnd = true := by
    simpa using heq
  obtain ⟨-, -, htold, -, htoldOr, -⟩ := capture_exec_output false _ s hs
  have hsaid : s.told := (htoldOr hclosed).resolve_right fun htimeout => by cases htimeout.1
  exact ⟨s, hs, hclosed, hshown, (htold hsaid).2 hsaw, (htold hsaid).1⟩

end Proof

end Irosh
