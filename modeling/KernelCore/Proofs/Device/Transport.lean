import KernelCore.Device.Uart
import KernelCore.Proofs.Contract
import Mathlib.Data.Nat.Bitwise
import Mathlib.Logic.Function.Basic

namespace KernelCore

theorem ByteArray.toList_loop (bytes : ByteArray) (i : Nat) (seen : List UInt8) :
    ByteArray.toList.loop bytes i seen = seen.reverse ++ bytes.data.toList.drop i := by
  fun_induction ByteArray.toList.loop bytes i seen with
  | case1 i seen within ih =>
    have shows : bytes.get! i = bytes.data.toList[i] := getElem!_pos bytes.data i within
    rw [ih, List.reverse_cons, List.append_assoc, shows, List.singleton_append, List.getElem_cons_drop]
  | case2 i seen past => rw [List.drop_of_length_le (Nat.le_of_not_lt past), List.append_nil]

theorem ByteArray.toList_eq (bytes : ByteArray) : bytes.toList = bytes.data.toList := ByteArray.toList_loop bytes 0 []

theorem toList_toUTF8_append (a b : String) : (a ++ b).toUTF8.toList = a.toUTF8.toList ++ b.toUTF8.toList := by
  simp only [ByteArray.toList_eq, String.toUTF8_eq_toByteArray, String.toByteArray_append, ByteArray.data_append,
    Array.toList_append]

theorem toList_toUTF8_injective : Function.Injective fun text : String => text.toUTF8.toList := by
  intro a b same
  simp only [ByteArray.toList_eq] at same
  exact String.toByteArray_inj.mp (ByteArray.ext (Array.toList_inj.mp same))

/-- The values that reads gave, in order. -/
def Bus.seen (events : List Event) : List UInt8 :=
  events.filterMap fun
    | .read _ value => some value
    | _ => none

theorem Bus.seen_append (xs ys : List Event) : seen (xs ++ ys) = seen xs ++ seen ys := List.filterMap_append

namespace Uart
open Machine
variable {uart : Uart} {bytes more : List UInt8} {events further : List Bus.Event}

/-- What goes out for bytes: each line feed behind a carriage return. -/
def encode (bytes : List UInt8) : List UInt8 :=
  bytes.flatMap fun value => if value = lineFeed then [carriageReturn, value] else [value]

/-- Bytes without the carriage returns that stand right in front of a line feed. -/
def decode : List UInt8 → List UInt8
  | [] => []
  | value :: rest =>
    if value = carriageReturn ∧ rest.head? = some lineFeed then decode rest else value :: decode rest

theorem head?_encode_ne (bytes : List UInt8) : (encode bytes).head? ≠ some lineFeed := by
  cases bytes with
  | nil => simp [encode]
  | cons value rest =>
    by_cases feed : value = lineFeed
    · simp [encode, feed, carriageReturn, lineFeed]
    · simp [encode, feed]

theorem decode_encode (bytes : List UInt8) : decode (encode bytes) = bytes := by
  induction bytes with
  | nil => rfl
  | cons value rest ih =>
    by_cases feed : value = lineFeed
    · have split : encode (value :: rest) = carriageReturn :: lineFeed :: encode rest := by simp [encode, feed]
      have plain : ¬lineFeed = carriageReturn := by decide
      rw [split, decode, if_pos ⟨rfl, rfl⟩, decode, if_neg fun both => plain both.1, ih, feed]
    · have split : encode (value :: rest) = value :: encode rest := by simp [encode, feed]
      rw [split, decode, if_neg fun both => head?_encode_ne rest both.2, ih]

theorem encode_append (xs ys : List UInt8) : encode (xs ++ ys) = encode xs ++ encode ys := List.flatMap_append

/-- The trace of sending bytes. Before each of them the status is read until it is found ready. -/
inductive Sends (uart : Uart) : List UInt8 → List Bus.Event → Prop
  | done : Sends uart [] []
  | wait {value rest events} (status : UInt8) (busy : isReady status = false) :
      Sends uart (value :: rest) events →
      Sends uart (value :: rest) (.read (uart.base + statusRegister) status :: events)
  | send {rest events} (value status : UInt8) (ready : isReady status = true) :
      Sends uart rest events →
      Sends uart (value :: rest)
        (.read (uart.base + statusRegister) status :: .write (uart.base + transmitRegister) value :: events)

theorem Sends.append (first : Sends uart bytes events) (second : Sends uart more further) :
    Sends uart (bytes ++ more) (events ++ further) := by
  induction first with
  | done => exact second
  | wait status busy _ ih => exact .wait status busy ih
  | send value status ready _ ih => exact .send value status ready ih

theorem Sends.written (sends : Sends uart bytes events) :
    Bus.written (uart.base + transmitRegister) events = bytes := by
  induction sends with
  | done => rfl
  | wait _ _ _ ih => exact ih
  | send value _ _ _ ih => simpa [Bus.written] using ih

/-- Each event is a poll of the line or a byte that goes out. -/
theorem Sends.mem (sends : Sends uart bytes events) {event : Bus.Event} (mem : event ∈ events) :
    (∃ status, event = .read (uart.base + statusRegister) status) ∨
      ∃ value, event = .write (uart.base + transmitRegister) value := by
  induction sends with
  | done => simp at mem
  | wait status _ _ ih =>
    rcases List.mem_cons.mp mem with rfl | mem
    · exact .inl ⟨status, rfl⟩
    · exact ih mem
  | send value status _ _ ih =>
    rcases List.mem_cons.mp mem with rfl | mem
    · exact .inl ⟨status, rfl⟩
    rcases List.mem_cons.mp mem with rfl | mem
    · exact .inr ⟨value, rfl⟩
    · exact ih mem

/-- Right before each write the line was found ready. -/
theorem Sends.ready_of_write (sends : Sends uart bytes events) {i addr : Nat} {value : UInt8}
    (writes : events[i]? = some (.write addr value)) :
    ∃ j status, i = j + 1 ∧ events[j]? = some (.read (uart.base + statusRegister) status) ∧ isReady status = true := by
  induction sends generalizing i with
  | done => simp at writes
  | wait status _ _ ih =>
    cases i with
    | zero => simp at writes
    | succ i =>
      obtain ⟨j, status, rfl, reads, ready⟩ := ih writes
      exact ⟨j + 1, status, rfl, reads, ready⟩
  | send _ status ready _ ih =>
    match i with
    | 0 => simp at writes
    | 1 => exact ⟨0, status, rfl, rfl, ready⟩
    | i + 2 =>
      obtain ⟨j, status, rfl, reads, ready⟩ := ih writes
      exact ⟨j + 2, status, rfl, reads, ready⟩

/-- A line that was not ready is asked again. -/
theorem Sends.polls_again (sends : Sends uart bytes events) {i addr : Nat} {status : UInt8}
    (reads : events[i]? = some (.read addr status)) (busy : isReady status = false) :
    ∃ next, events[i + 1]? = some (.read (uart.base + statusRegister) next) := by
  induction sends generalizing i with
  | done => simp at reads
  | wait _ _ rest ih =>
    cases i with
    | zero =>
      cases rest with
      | wait next | send _ next => exact ⟨next, rfl⟩
    | succ i => exact ih reads
  | send _ status' ready _ ih =>
    match i with
    | 0 =>
      obtain ⟨-, rfl⟩ : uart.base + statusRegister = addr ∧ status' = status := by simpa using reads
      exact absurd ready (by simp [busy])
    | 1 => simp at reads
    | i + 2 => exact ih reads

/-- The bit of a status that counts is the sixth. -/
theorem isReady_eq_testBit (status : UInt8) : isReady status = status.toNat.testBit 5 := by
  have bit : (status &&& readyBit).toNat = (status.toNat.testBit 5).toNat * 2 ^ 5 := Nat.and_two_pow status.toNat 5
  rw [isReady, Bool.eq_iff_iff, bne_iff_ne, ne_eq, ← UInt8.toNat_inj, bit]
  cases status.toNat.testBit 5 <;> simp

/-- Polling uses up one status that is ready, and those in front of it. If none is left, the line is ready. -/
theorem takeReady_append (pending : List UInt8) :
    (takeReady pending).1 ++ (takeReady pending).2 =
        pending ++ List.replicate (1 - pending.countP isReady) readyBit ∧
      (takeReady pending).2.countP isReady = pending.countP isReady - 1 := by
  induction pending with
  | nil => exact ⟨rfl, rfl⟩
  | cons status rest ih =>
    cases ready : isReady status with
    | true => simp [takeReady, ready]
    | false => simpa [takeReady, ready] using ih

/-- What is done in polling, and then with the line, is the sending of a byte. -/
theorem sends_of_takeReady (pending : List UInt8) (value : UInt8) :
    Sends uart [value] ((takeReady pending).1.map (Bus.Event.read (uart.base + statusRegister)) ++
      [.write (uart.base + transmitRegister) value]) := by
  induction pending with
  | nil => exact .send value readyBit rfl .done
  | cons status rest ih =>
    cases ready : isReady status with
    | true => simpa [takeReady, ready] using Sends.send value status ready .done
    | false => simpa [takeReady, ready] using Sends.wait status ready ih

/-- From one state of the hardware to another, bytes were sent. Of the statuses that the line gives, those that are
left come after those that were read. -/
def Sent (uart : Uart) (bytes : List UInt8) (b t : Bus) : Prop :=
  ∃ events : List Bus.Event, t.enabled = b.enabled ∧ t.events = b.events ++ events ∧ Sends uart bytes events ∧
    Bus.seen events ++ t.pending =
      b.pending ++ List.replicate (bytes.length - b.pending.countP isReady) readyBit ∧
    t.pending.countP isReady = b.pending.countP isReady - bytes.length

theorem Sent.nil (b : Bus) : Sent uart [] b b := ⟨[], rfl, by simp, .done, by simp [Bus.seen], by simp⟩

theorem Sent.append {b s t : Bus} (first : Sent uart bytes b s) (second : Sent uart more s t) :
    Sent uart (bytes ++ more) b t := by
  obtain ⟨events, sameFlag, noted, sends, reads, left⟩ := first
  obtain ⟨further, sameFlag', noted', sends', reads', left'⟩ := second
  refine ⟨events ++ further, sameFlag'.trans sameFlag, ?_, sends.append sends', ?_, ?_⟩
  · rw [noted', noted]
    exact Array.ext' (by simp)
  · have count : bytes.length - b.pending.countP isReady + (more.length - s.pending.countP isReady) =
        (bytes ++ more).length - b.pending.countP isReady := by
      rw [left, List.length_append]
      omega
    calc Bus.seen (events ++ further) ++ t.pending
        = Bus.seen events ++ (Bus.seen further ++ t.pending) := by rw [Bus.seen_append, List.append_assoc]
      _ = Bus.seen events ++ (s.pending ++ List.replicate (more.length - s.pending.countP isReady) readyBit) := by
        rw [reads']
      _ = _ := by rw [← List.append_assoc, reads, List.append_assoc, List.replicate_append_replicate, count]
  · rw [left', left, List.length_append]
    omega

theorem writeBytes_cons (uart : Uart) (value : UInt8) (rest : List UInt8) :
    uart.writeBytes (value :: rest) =
      (if value = lineFeed then uart.writeByte carriageReturn >>= fun _ => uart.writeByte value
        else uart.writeByte value) >>= fun _ => uart.writeBytes rest := by
  by_cases feed : value = lineFeed <;> simp [writeBytes, feed]

section
variable (reaches : uart.base + statusRegister < addressLimit)
include reaches

theorem meets_writeByte (value : UInt8) (b : Bus) :
    (uart.writeByte value).Meets b (fun _ t => Sent uart [value] b t) fun _ => False := by
  have atStatus : uart.address statusRegister = .ok (uart.base + statusRegister) := if_pos reaches
  have atTransmit : uart.address transmitRegister = .ok (uart.base + transmitRegister) :=
    if_pos (by simp only [statusRegister, transmitRegister] at *; omega)
  obtain ⟨reads, left⟩ := takeReady_append b.pending
  simp only [writeByte, poll, writeRegister, Bus.write, Bus.note, atStatus, atTransmit, meets_bind, meets_lift_ok,
    meets_modify]
  refine ⟨(takeReady b.pending).1.map (Bus.Event.read (uart.base + statusRegister)) ++
    [.write (uart.base + transmitRegister) value], rfl, ?_, sends_of_takeReady b.pending value, ?_, left⟩
  · exact Array.ext' (by simp)
  · rw [Bus.seen_append]
    simpa [Bus.seen, List.filterMap_map, Function.comp_def] using reads

/-- What is sent for bytes is their encoding. -/
theorem meets_writeBytes (bytes : List UInt8) (b : Bus) :
    (uart.writeBytes bytes).Meets b (fun _ t => Sent uart (encode bytes) b t) fun _ => False := by
  induction bytes generalizing b with
  | nil => exact Sent.nil b
  | cons value rest ih =>
    have split : encode (value :: rest) = encode [value] ++ encode rest := encode_append [value] rest
    have goesOn : ∀ s, Sent uart (encode [value]) b s →
        (uart.writeBytes rest).Meets s (fun _ t => Sent uart (encode (value :: rest)) b t) fun _ => False :=
      fun s sent => (ih s).mono (fun _ t sent' => split ▸ sent.append sent') fun _ => id
    rw [writeBytes_cons]
    by_cases feed : value = lineFeed
    · have both : encode [value] = [carriageReturn] ++ [value] := by simp [encode, feed]
      rw [if_pos feed, meets_bind, meets_bind]
      refine (meets_writeByte reaches carriageReturn b).mono (fun _ s sent => ?_) fun _ => id
      refine (meets_writeByte reaches value s).mono (fun _ t sent' => goesOn t ?_) fun _ => id
      exact both ▸ sent.append sent'
    · have one : encode [value] = [value] := by simp [encode, feed]
      rw [if_neg feed, meets_bind]
      exact (meets_writeByte reaches value b).mono (fun _ s sent => goesOn s (by rwa [one])) fun _ => id

end

theorem writeText_append (uart : Uart) (a b : String) :
    uart.writeText (a ++ b) = uart.writeText a >>= fun _ => uart.writeText b := by
  simp only [writeText, writeBytes, toList_toUTF8_append, List.forM_eq_forM, List.forM_append]

/-- What writing a text adds to what was done. -/
def transcript (uart : Uart) (text : String) (b : Bus) : List Bus.Event :=
  ((uart.writeText text).runFrom b).2.events.toList.drop b.events.size

theorem transcript_of_runFrom {text : String} {b t : Bus} (ran : (uart.writeText text).runFrom b = (.ok (), t))
    (noted : t.events = b.events ++ events) : uart.transcript text b = events := by
  rw [transcript, ran, noted, ← Array.length_toList]
  simp

/-- Texts on a line whose registers have addresses, whatever statuses it gives, where statuses that are used up
mean that it is ready. A text is written completely, and nothing else happens than polls and bytes going out: the
bytes of its encoding with a carriage return in front of each line feed. Right before each of them the status was read
with the sixth bit set, and after a status without it comes another poll. The statuses are read in order, no more of
them than it takes. Writing two texts one after the other is writing them together, and from what went out the text
is known. -/
theorem writeText_transport (reaches : uart.base + statusRegister < addressLimit) :
    (∀ (text : String) (b : Bus), ∃ left,
      (uart.writeText text).runFrom b =
        (.ok (), { b with pending := left, events := b.events ++ uart.transcript text b }) ∧
      Bus.written (uart.base + transmitRegister) (uart.transcript text b) = encode text.toUTF8.toList ∧
      (∀ event ∈ uart.transcript text b, (∃ status, event = .read (uart.base + statusRegister) status) ∨
        ∃ value, event = .write (uart.base + transmitRegister) value) ∧
      (∀ i addr value, (uart.transcript text b)[i]? = some (.write addr value) →
        ∃ j status, i = j + 1 ∧
          (uart.transcript text b)[j]? = some (.read (uart.base + statusRegister) status) ∧
          status.toNat.testBit 5 = true) ∧
      (∀ i addr status, (uart.transcript text b)[i]? = some (.read addr status) → status.toNat.testBit 5 = false →
        ∃ next, (uart.transcript text b)[i + 1]? = some (.read (uart.base + statusRegister) next)) ∧
      Bus.seen (uart.transcript text b) ++ left =
        b.pending ++
          List.replicate ((encode text.toUTF8.toList).length - b.pending.countP isReady) readyBit) ∧
    (∀ a b, uart.writeText (a ++ b) = uart.writeText a >>= fun _ => uart.writeText b) ∧
    ∀ a b s t, Bus.written (uart.base + transmitRegister) (uart.transcript a s) =
      Bus.written (uart.base + transmitRegister) (uart.transcript b t) → a = b := by
  have sends : ∀ (text : String) (b : Bus), ∃ t, (uart.writeText text).runFrom b = (.ok (), t) ∧
      t = { b with pending := t.pending, events := b.events ++ uart.transcript text b } ∧
      Sends uart (encode text.toUTF8.toList) (uart.transcript text b) ∧
      Bus.seen (uart.transcript text b) ++ t.pending =
        b.pending ++
          List.replicate ((encode text.toUTF8.toList).length - b.pending.countP isReady) readyBit := by
    intro text b
    obtain ⟨_, t, ran, events, sameFlag, noted, sends, reads, -⟩ :=
      (meets_writeBytes reaches text.toUTF8.toList b).returns fun _ => id
    have shows := transcript_of_runFrom ran noted
    refine ⟨t, ran, ?_, shows ▸ sends, shows ▸ reads⟩
    rw [shows, ← sameFlag, ← noted]
  refine ⟨fun text b => ?_, writeText_append uart, fun a b s t same => ?_⟩
  · obtain ⟨t, ran, shape, sends, reads⟩ := sends text b
    refine ⟨t.pending, ran.trans (congrArg (Prod.mk _) shape), sends.written, fun event => sends.mem,
      fun i addr value writes => ?_, fun i addr status shows busy => ?_, reads⟩
    · obtain ⟨j, status, after, shows, ready⟩ := sends.ready_of_write writes
      exact ⟨j, status, after, shows, isReady_eq_testBit status ▸ ready⟩
    · exact sends.polls_again shows (isReady_eq_testBit status ▸ busy)
  · obtain ⟨_, -, -, first, -⟩ := sends a s
    obtain ⟨_, -, -, second, -⟩ := sends b t
    rw [first.written, second.written] at same
    have bytes := (decode_encode a.toUTF8.toList).symm.trans ((congrArg decode same).trans (decode_encode _))
    exact toList_toUTF8_injective bytes

/-- A text with a carriage return of its own on a line that is busy for a while. -/
theorem written_of_crlf :
    (com1.base + statusRegister < addressLimit) ∧
      Bus.written 0x3F8 (com1.transcript "a\r\n" (.initial true [0, 0x20, 0x40, 0x60])) = [97, 13, 13, 10] := by
  have reaches : com1.base + statusRegister < addressLimit := by decide
  obtain ⟨-, -, sent, -⟩ := (writeText_transport reaches).1 "a\r\n" (.initial true [0, 0x20, 0x40, 0x60])
  refine ⟨reaches, sent.trans ?_⟩
  rw [ByteArray.toList_eq]
  decide +kernel

end Uart
end KernelCore
