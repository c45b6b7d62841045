import Irosh.Input.Drive
import Irosh.Proof.Listings
import Mathlib.Tactic.IntervalCases

/-!
# Reading the cursor's position

`query_cpr` asks the terminal where its cursor is, and reads the answer from where the
user's typing comes from. At most one `ESC [` up to an `R` is taken out of what it has
read; the rest goes on to the input engine. The answer is found between typed bytes,
unless these have an `ESC [` of their own in front of it, or come in a piece that ends
with an `R`: then it stops reading before the answer is there.
-/

namespace Irosh

variable {bytes before mid after : List UInt8}

/-- No `ESC [` in these bytes. -/
def NoCsi (bytes : List UInt8) : Prop := ¬ [0x1b, 0x5b] <:+: bytes

theorem findCsi_none_iff : findCsi bytes = none ↔ NoCsi bytes := by
  induction bytes with
  | nil => simp [findCsi, NoCsi]
  | cons b rest ih =>
      unfold findCsi
      split
      · rename_i tail heq
        refine ⟨fun h => (by cases h), fun h => absurd ?_ h⟩
        rw [heq]
        exact ⟨[], tail, rfl⟩
      · rename_i b' rest' hno heq
        cases heq
        rw [Option.map_eq_none_iff, ih, NoCsi, NoCsi, List.infix_cons_iff]
        refine ⟨fun h => ?_, fun h h' => h (.inr h')⟩
        rintro (⟨tail, htail⟩ | h')
        · cases htail
          exact hno tail rfl rfl
        · exact h h'
      · rename_i heq
        cases heq

/-- Where the first `ESC [` is. -/
theorem findCsi_some {n : Nat} (h : findCsi bytes = some n) :
    ∃ before rest, bytes = before ++ 0x1b :: 0x5b :: rest ∧ before.length = n ∧ NoCsi before := by
  induction bytes generalizing n with
  | nil => cases h
  | cons b rest ih =>
      unfold findCsi at h
      split at h
      · rename_i tail heq
        cases h
        exact ⟨[], tail, heq, rfl, findCsi_none_iff.mp rfl⟩
      · rename_i b' rest' hno heq
        cases heq
        obtain ⟨m, hm, hn⟩ := Option.map_eq_some_iff.mp h
        obtain ⟨before, tail, hrest, hlen, hplain⟩ := ih hm
        refine ⟨b :: before, tail, by rw [hrest]; rfl, by rw [List.length_cons, hlen, hn], ?_⟩
        rw [NoCsi, List.infix_cons_iff]
        rintro (⟨more, hmore⟩ | hin)
        · -- `b` is the ESC, and the byte after it is the first of `rest`
          cases before with
          | nil => cases hmore
          | cons c before =>
              cases hmore
              rw [hrest] at hno
              exact hno _ rfl rfl
        · exact hplain hin
      · cases h

theorem NoCsi.tail {b : UInt8} (h : NoCsi (b :: bytes)) : NoCsi bytes := fun hin =>
  h (List.infix_cons_iff.mpr (.inr hin))

/-- The first `ESC [` is found behind bytes that have none. -/
theorem findCsi_append (hplain : NoCsi before) (rest : List UInt8) :
    findCsi (before ++ 0x1b :: 0x5b :: rest) = some before.length := by
  induction before with
  | nil => rfl
  | cons b before ih =>
      rw [List.cons_append]
      unfold findCsi
      split
      · -- an ESC with a `[` behind it, which is not the one that follows `before`
        rename_i tail heq
        cases before with
        | nil => cases heq
        | cons c before =>
            cases heq
            exact absurd ⟨[], before, rfl⟩ hplain
      · rename_i b' rest' hno heq
        cases heq
        rw [ih hplain.tail]
        rfl
      · rename_i heq
        cases heq

theorem idxOf?_append_cons {b : UInt8} (h : b ∉ bytes) (rest : List UInt8) :
    (bytes ++ b :: rest).idxOf? b = some bytes.length := by
  induction bytes with
  | nil => simp [List.idxOf?_cons]
  | cons c bytes ih =>
      have hne : (c == b) = false := beq_eq_false_iff_ne.mpr fun he => h (he ▸ List.mem_cons_self)
      rw [List.cons_append, List.idxOf?_cons, hne, ih fun hmem => h (List.mem_cons_of_mem c hmem)]
      rfl

theorem idxOf?_split {b : UInt8} {n : Nat} (h : bytes.idxOf? b = some n) :
    ∃ mid rest, bytes = mid ++ b :: rest ∧ mid.length = n ∧ b ∉ mid := by
  induction bytes generalizing n with
  | nil => cases h
  | cons c bytes ih =>
      rw [List.idxOf?_cons] at h
      split at h
      · rename_i heq
        cases h
        exact ⟨[], bytes, by rw [beq_iff_eq.mp heq]; rfl, rfl, List.not_mem_nil⟩
      · rename_i hne
        obtain ⟨m, hm, hn⟩ := Option.map_eq_some_iff.mp h
        obtain ⟨mid, rest, hbytes, hlen, hmid⟩ := ih hm
        refine ⟨c :: mid, rest, by rw [hbytes]; rfl, by rw [List.length_cons, hlen, hn], ?_⟩
        rintro (_ | ⟨_, hmem⟩)
        · exact hne (beq_self_eq_true b)
        · exact hmid hmem

/-- Where an `ESC [` comes after bytes without one, and the next `R` follows bytes without one. -/
theorem cprReply_between (hplain : NoCsi before) (hmid : 0x52 ∉ mid) :
    cprReply (before ++ 0x1b :: 0x5b :: (mid ++ 0x52 :: after))
      = ((Serve.parseUnsigned 10 65536 ((Utf8.decodeLossy mid).takeWhile (· ≠ ';'))).getD 0,
          before ++ after) := by
  have hdrop : (before ++ 0x1b :: 0x5b :: (mid ++ 0x52 :: after)).drop before.length
      = (0x1b :: 0x5b :: mid) ++ 0x52 :: after := List.drop_left
  have hidx : ((0x1b :: 0x5b :: mid) ++ 0x52 :: after).idxOf? 0x52 = some (mid.length + 2) := by
    refine idxOf?_append_cons ?_ after
    rintro (_ | ⟨_, _ | ⟨_, hmem⟩⟩)
    exact hmid hmem
  unfold cprReply
  rw [findCsi_append hplain]
  dsimp only
  rw [hdrop, hidx]
  dsimp only
  have hreport : (before ++ 0x1b :: 0x5b :: (mid ++ 0x52 :: after)).drop (before.length + 2)
      = mid ++ 0x52 :: after := by
    rw [← List.drop_drop, hdrop]
    rfl
  have hrest : (before ++ 0x1b :: 0x5b :: (mid ++ 0x52 :: after)).drop (before.length + (mid.length + 2) + 1)
      = after := by
    rw [Nat.add_assoc, ← List.drop_drop, hdrop]
    show (mid ++ 0x52 :: after).drop (mid.length + 1) = after
    rw [← List.drop_drop, List.drop_left]
    rfl
  rw [hreport, hrest, Nat.add_sub_cancel, List.take_left, List.take_left]

/-! ## Reading -/

/-- The bytes among what comes from the terminal. -/
def typedBytes (events : List (Option TerminalEvent)) : List UInt8 :=
  events.flatMap fun event => match event with
    | some (.data bytes) => bytes
    | _ => []

theorem typedBytes_append (a b : List (Option TerminalEvent)) :
    typedBytes (a ++ b) = typedBytes a ++ typedBytes b := List.flatMap_append

/-- The loop reads everything that comes, or stops where an `R` is the last that has come. -/
theorem readResponse_spec (response : List UInt8) (events : List (Option TerminalEvent)) :
    ∃ read unread, events = read ++ unread ∧ readResponse response events = response ++ typedBytes read
      ∧ (unread = [] ∨ (response ++ typedBytes read).getLast? = some 0x52) := by
  induction events generalizing response with
  | nil => exact ⟨[], [], rfl, (List.append_nil response).symm, .inl rfl⟩
  | cons event events ih =>
      have hnext (data : List UInt8) (hdata : typedBytes [event] = data)
          (hread : readResponse response (event :: events) = readResponse (response ++ data) events) :
          ∃ read unread, event :: events = read ++ unread
            ∧ readResponse response (event :: events) = response ++ typedBytes read
            ∧ (unread = [] ∨ (response ++ typedBytes read).getLast? = some 0x52) := by
        obtain ⟨read, unread, hsplit, hresponse, hend⟩ := ih (response ++ data)
        have hbytes : response ++ typedBytes (event :: read) = response ++ data ++ typedBytes read := by
          rw [← List.singleton_append, typedBytes_append, hdata, List.append_assoc]
        refine ⟨event :: read, unread, by rw [hsplit]; rfl, ?_, ?_⟩
        · rw [hread, hresponse, hbytes]
        · rw [hbytes]
          exact hend
      match event with
      | some (.data data) =>
          by_cases hlast : (response ++ data).getLast? = some 0x52
          · have hdata : typedBytes [some (.data data)] = data := List.append_nil data
            refine ⟨[some (.data data)], events, rfl, ?_, .inr ?_⟩
            · rw [readResponse, if_pos hlast, hdata]
            · rw [hdata]
              exact hlast
          · exact hnext data (List.append_nil data) (by rw [readResponse, if_neg hlast])
      | some .resize => exact hnext [] rfl (by rw [readResponse, List.append_nil])
      | none => exact hnext [] rfl (by rw [readResponse, List.append_nil])

/-- Unless it stops before, the loop reads what is in front, and some of what comes behind it. -/
theorem readResponse_reaches {events : List (Option TerminalEvent)} {front back : List UInt8}
    (hbytes : typedBytes events = front ++ back)
    (hstop : ∀ read, read <+: events → (typedBytes read).getLast? = some 0x52 →
      front.length ≤ (typedBytes read).length) :
    ∃ back', back' <+: back ∧ readResponse [] events = front ++ back' := by
  obtain ⟨read, unread, rfl, hresponse, hend⟩ := readResponse_spec [] events
  rw [List.nil_append] at hresponse hend
  rw [typedBytes_append] at hbytes
  rw [hresponse]
  rcases hend with rfl | hlast
  · refine ⟨back, List.prefix_refl back, ?_⟩
    rw [← hbytes]
    exact (List.append_nil _).symm
  · have hprefix : typedBytes read <+: front ++ back := ⟨typedBytes unread, hbytes⟩
    have hlen := hstop read (List.prefix_append read unread) hlast
    obtain ⟨back', hback⟩ := List.prefix_of_prefix_length_le (List.prefix_append front back) hprefix hlen
    refine ⟨back', ?_, hback.symm⟩
    rw [← hback, List.prefix_append_right_inj] at hprefix
    exact hprefix

/-- The answer of a terminal. -/
def cursorReport (row column : Nat) : List UInt8 :=
  0x1b :: 0x5b :: (Utf8.encode (Nat.toDigits 10 row ++ ';' :: Nat.toDigits 10 column) ++ [0x52])

theorem isDigit_encode {c : Char} (h : c.isDigit = true) : (0x52 : UInt8) ∉ String.utf8EncodeChar c := by
  have hlo : 48 ≤ c.toNat ∧ c.toNat ≤ 57 := by
    simpa [Char.isDigit, UInt32.le_iff_toNat_le] using h
  obtain ⟨hlo, hhi⟩ := hlo
  rw [← Char.ofNat_toNat c]
  interval_cases c.toNat <;> decide

theorem notMem_encode_toDigits (n : Nat) : (0x52 : UInt8) ∉ Utf8.encode (Nat.toDigits 10 n) := by
  intro hmem
  obtain ⟨c, hc, hr⟩ := List.mem_flatMap.mp hmem
  exact isDigit_encode (Nat.isDigit_of_mem_toDigits (by omega) (by omega) hc) hr

/-- A terminal's answer among what is typed. -/
theorem cprReply_cursorReport {row : Nat} (hplain : NoCsi before) (hrow : row < 65536) (column : Nat)
    (after : List UInt8) :
    cprReply (before ++ cursorReport row column ++ after) = (row, before ++ after) := by
  have hmid : (0x52 : UInt8) ∉ Utf8.encode (Nat.toDigits 10 row ++ ';' :: Nat.toDigits 10 column) := by
    rw [Utf8.encode_append, Utf8.encode_cons, List.mem_append, List.mem_append]
    rintro (h | h | h)
    · exact notMem_encode_toDigits row h
    · exact absurd h (by decide)
    · exact notMem_encode_toDigits column h
  have hrow' : (Nat.toDigits 10 row ++ ';' :: Nat.toDigits 10 column).takeWhile (· ≠ ';')
      = Nat.toDigits 10 row := by
    rw [List.takeWhile_append_of_pos, List.takeWhile_cons_of_neg (by decide), List.append_nil]
    intro c hc
    refine decide_eq_true fun he => ?_
    have hdigit := Nat.isDigit_of_mem_toDigits (by omega) (by omega) hc
    rw [he] at hdigit
    cases hdigit
  have hbetween := @cprReply_between _ _ after hplain hmid
  rw [Utf8.decodeLossy_encode, hrow', Serve.parseUnsigned_toDigits (by omega) (by omega) hrow] at hbetween
  rw [cursorReport, List.append_assoc, List.cons_append, List.cons_append, List.append_assoc]
  exact hbetween

/-- At most one report is taken out of what was read. -/
theorem cprReply_takes_one (response : List UInt8) :
    (cprReply response).2 = response
      ∨ ∃ before mid after, response = before ++ 0x1b :: 0x5b :: (mid ++ 0x52 :: after)
          ∧ NoCsi before ∧ 0x52 ∉ mid ∧ (cprReply response).2 = before ++ after := by
  cases hf : findCsi response with
  | none =>
      refine .inl ?_
      rw [cprReply, hf]
  | some start =>
      obtain ⟨before, rest, hresponse, hlen, hplain⟩ := findCsi_some hf
      cases hr : (0x1b :: 0x5b :: rest).idxOf? 0x52 with
      | none =>
          refine .inl ?_
          rw [cprReply, hf]
          dsimp only
          rw [hresponse, ← hlen, List.drop_left, hr]
      | some offset =>
          refine .inr ?_
          obtain ⟨found, after, hfound, -, hno⟩ := idxOf?_split hr
          rcases found with _ | ⟨_, _ | ⟨_, mid⟩⟩
          · cases hfound
          · cases hfound
          · cases hfound
            have hmid : (0x52 : UInt8) ∉ mid := fun h =>
              hno (List.mem_cons_of_mem _ (List.mem_cons_of_mem _ h))
            refine ⟨before, mid, after, hresponse, hplain, hmid, ?_⟩
            rw [hresponse]
            exact congrArg Prod.snd (cprReply_between hplain hmid)

namespace Proof

/-- **Asking for the cursor's position loses nothing that was typed.** What comes is read up to where an
`R` is the last of it, or until the time is over; the rest is left for later. Of what was read at most one
`ESC [` up to the next `R` is taken out, and everything else is passed on in order. The answer of the
terminal is found and its row read, as long as no `ESC [` was typed before it and nothing that was read
before it was whole ended with an `R`. -/
theorem query_cpr_passes_typing (answers : Drive.Surroundings) (n : Nat) :
    ((answers n (.stdout .driver [0x1b, 0x5b, 0x36, 0x6e]) : Bool) = true →
        queryCpr.outcome answers n = cprReply (readResponse [] (answers (n + 1) .readReport)))
    ∧ (∀ events, ∃ read unread, events = read ++ unread ∧ readResponse [] events = typedBytes read
        ∧ (unread = [] ∨ (typedBytes read).getLast? = some 0x52))
    ∧ (∀ response, (cprReply response).2 = response
      ∨ ∃ before mid after, response = before ++ 0x1b :: 0x5b :: (mid ++ 0x52 :: after)
          ∧ NoCsi before ∧ 0x52 ∉ mid ∧ (cprReply response).2 = before ++ after)
    ∧ ∀ events before after row column, typedBytes events = before ++ cursorReport row column ++ after →
        NoCsi before → row < 65536 →
        (∀ read, read <+: events → (typedBytes read).getLast? = some 0x52 →
          (before ++ cursorReport row column).length ≤ (typedBytes read).length) →
        ∃ after', after' <+: after ∧ cprReply (readResponse [] events) = (row, before ++ after') := by
  refine ⟨?_, ?_, cprReply_takes_one, ?_⟩
  · intro hasked
    have hquery (asked : Bool) (h : answers n (.stdout .driver [0x1b, 0x5b, 0x36, 0x6e]) = asked) :
        queryCpr.outcome answers n = (if asked then (do
            let events ← DriveOp.readReport.perform
            pure (cprReply (readResponse [] events))) else pure (0, []) :
          DriveProg (Nat × List UInt8)).outcome answers (n + 1) := by
      subst h
      rfl
    rw [hquery true hasked]
    rfl
  · intro events
    exact readResponse_spec [] events
  · intro events before after row column hbytes hplain hrow hstop
    obtain ⟨after', hprefix, hresponse⟩ := readResponse_reaches hbytes hstop
    refine ⟨after', hprefix, ?_⟩
    rw [hresponse]
    exact cprReply_cursorReport hplain hrow column after'

end Proof

end Irosh
