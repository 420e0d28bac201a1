import FrameworkTests.Lib.Fields
import FrameworkTests.Transport.Outgoing

/-!
# The handlers of a REST node and the test of them

`TestNode` has one handler for each HTTP verb, all on the same path.  The test sends a
request over a memory transport, lets the client under test do what it does, and
compares the last line of what was captured with what the right handler returns for 42.

The client is not in the repository: it is any run of operations of the transport.
`passes_iff` says which runs a row accepts, and `rows_pass_iff` what the rows prove
together of a client that answers with the result of one of the handlers, behind
a head of its choice and cut into writes as it likes.

## Main definitions

* `HttpVerb`, `handler` — the handlers, one for each verb.
* `createClient`, `invokeAnnotatedSpecificHandler` — the test of a row.
* `Answered verb anInt ops` — the run answers with the result of a handler.
-/

namespace FrameworkTests.RestfulHttpNodeTest

open Run HttpMemoryTransport

/-- A `QString`. -/
abbrev Text := List Char

/-- A character in Latin-1, a question mark if it has none. -/
def latin1 (c : Char) : UInt8 := if c.toNat < 256 then UInt8.ofNat c.toNat else 63

def toLatin1 (s : Text) : Bytes := s.map latin1

/-- `"%1"` with a number put in. -/
def decimal : ℤ → Text
  | .ofNat n => Nat.toDigits 10 n
  | .negSucc n => '-' :: Nat.toDigits 10 (n + 1)

/-! ### The node -/

inductive HttpVerb
  | GET
  | HEAD
  | POST
  | PUT
  | DELETE
  deriving DecidableEq, Repr

def HttpVerb.name : HttpVerb → Text
  | GET => ['G', 'E', 'T']
  | HEAD => ['H', 'E', 'A', 'D']
  | POST => ['P', 'O', 'S', 'T']
  | PUT => ['P', 'U', 'T']
  | DELETE => ['D', 'E', 'L', 'E', 'T', 'E']

/-- A word and a number. -/
def annotation (verb : Text) (anInt : ℤ) : Text := verb ++ ' ' :: decimal anInt

def getAnnotation (anInt : ℤ) : Text := annotation HttpVerb.GET.name anInt
def headAnnotation (anInt : ℤ) : Text := annotation HttpVerb.HEAD.name anInt
def postAnnotation (anInt : ℤ) : Text := annotation HttpVerb.POST.name anInt
def putAnnotation (anInt : ℤ) : Text := annotation HttpVerb.PUT.name anInt
def deleteAnnotation (anInt : ℤ) : Text := annotation HttpVerb.DELETE.name anInt

/-- The handler of `annotate/{anInt}` for a verb. -/
def handler : HttpVerb → ℤ → Text
  | .GET => getAnnotation
  | .HEAD => headAnnotation
  | .POST => postAnnotation
  | .PUT => putAnnotation
  | .DELETE => deleteAnnotation

/-! ### The test -/

/-- The request for a method, with a body of ten bytes or without one. -/
def request (method : Bytes) (withBody : Bool) : Bytes :=
  if !withBody then method ++ toLatin1 " /api/annotate/42 HTTP/1.0\r\n\r\n".toList
  else method ++ toLatin1
    " /api/annotate/42 HTTP/1.0\r\nContent-Length: 10\r\n\r\n1234567890".toList

/-- The transport of a new client. -/
def createClient (method : Bytes) (withBody : Bool) : HttpMemoryTransport :=
  new.setIncoming (request method withBody)

/-- The test of one row; `ops` is what the client does to the transport. -/
def invokeAnnotatedSpecificHandler (method : Text) (ops : List Op) : Bool :=
  let transport := after step ops (createClient (toLatin1 method) (method.head? == some 'P'))
  let result := lastField 10 transport.outData
  let expected := toLatin1 method ++ toLatin1 " 42".toList
  result == expected

/-- Nothing, or lines. -/
def EndsLine (head : Bytes) : Prop := ∀ b ∈ head.getLast?, b = 10

instance (head : Bytes) : Decidable (EndsLine head) :=
  inferInstanceAs (Decidable (∀ b ∈ _, b = 10))

/-- What was captured in a run is a head of lines and the result of a handler. -/
def Answered (verb : HttpVerb) (anInt : ℤ) (ops : List Op) : Prop :=
  ∃ head, EndsLine head ∧ captured ops = head ++ toLatin1 (handler verb anInt)

/-! ### Texts -/

theorem latin1_inj {c d : Char} (hc : c.toNat < 256) (hd : d.toNat < 256) :
    latin1 c = latin1 d ↔ c = d := by
  refine ⟨fun h => ?_, congrArg latin1⟩
  rw [latin1, latin1, if_pos hc, if_pos hd] at h
  have hnat := congrArg UInt8.toNat h
  rw [UInt8.toNat_ofNat_of_lt' hc, UInt8.toNat_ofNat_of_lt' hd] at hnat
  exact Char.toNat_inj.mp hnat

theorem toLatin1_inj {s t : Text} (hs : ∀ c ∈ s, c.toNat < 256) (ht : ∀ c ∈ t, c.toNat < 256) :
    toLatin1 s = toLatin1 t ↔ s = t := by
  refine ⟨fun h => ?_, congrArg toLatin1⟩
  induction s generalizing t with
  | nil => exact (List.map_eq_nil_iff.mp h.symm).symm
  | cons c s ih =>
      obtain ⟨d, t, rfl, hcd, hst⟩ := List.map_eq_cons_iff.mp h.symm
      rw [List.forall_mem_cons] at hs ht
      rw [(latin1_inj hs.1 ht.1).mp hcd.symm, ih hs.2 ht.2 hst.symm]

/-- A line break comes from a line break. -/
theorem newline_mem_toLatin1 {s : Text} : 10 ∈ toLatin1 s ↔ '\n' ∈ s := by
  have hbreak : ∀ c, latin1 c = 10 ↔ c = '\n' := by
    intro c
    by_cases hc : c.toNat < 256
    · exact latin1_inj hc (d := '\n') (by decide)
    · rw [latin1, if_neg hc]
      refine ⟨fun h => absurd h (by decide), ?_⟩
      intro h
      exact absurd (h ▸ by decide) hc
  rw [toLatin1, List.mem_map]
  constructor
  · intro h
    obtain ⟨c, hc, hnewline⟩ := h
    exact (hbreak c).mp hnewline ▸ hc
  · exact fun h => ⟨'\n', h, rfl⟩

/-- A number is written in digits, behind a sign. -/
theorem mem_decimal {c : Char} {n : ℤ} (h : c ∈ decimal n) : c.isDigit = true ∨ c = '-' := by
  cases n with
  | ofNat n => exact .inl (Nat.isDigit_of_mem_toDigits (by decide) (by decide) h)
  | negSucc n =>
      rcases List.mem_cons.mp h with hsign | hdigit
      · exact .inr hsign
      · exact .inl (Nat.isDigit_of_mem_toDigits (by decide) (by decide) hdigit)

theorem toDigits_inj {m n : ℕ} : Nat.toDigits 10 m = Nat.toDigits 10 n ↔ m = n := by
  refine ⟨fun h => ?_, congrArg _⟩
  have hread := congrArg (Nat.ofDigitChars 10 · 0) h
  simpa [Nat.ofDigitChars_toDigits] using hread

/-- The digits of a number do not start with a sign. -/
theorem toDigits_ne_sign (m : ℕ) (ds : Text) : Nat.toDigits 10 m ≠ '-' :: ds := by
  intro h
  have hsign : '-' ∈ Nat.toDigits 10 m := h ▸ List.mem_cons_self
  exact absurd (Nat.isDigit_of_mem_toDigits (by decide) (by decide) hsign) (by decide)

theorem decimal_inj {m n : ℤ} : decimal m = decimal n ↔ m = n := by
  refine ⟨fun h => ?_, congrArg decimal⟩
  cases m with
  | ofNat m =>
      cases n with
      | ofNat n => exact congrArg Int.ofNat (toDigits_inj.mp h)
      | negSucc n => exact absurd h (toDigits_ne_sign m _)
  | negSucc m =>
      cases n with
      | ofNat n => exact absurd h.symm (toDigits_ne_sign n _)
      | negSucc n =>
          have hdigits := toDigits_inj.mp (List.cons.inj h).2
          exact congrArg Int.negSucc (by omega)

theorem handler_eq (verb : HttpVerb) (n : ℤ) : handler verb n = verb.name ++ ' ' :: decimal n := by
  cases verb <;> rfl

/-- The characters of what a handler returns: there is no line break, and nothing that
Latin-1 does not have. -/
theorem mem_handler {c : Char} {verb : HttpVerb} {n : ℤ} (h : c ∈ handler verb n) :
    c ≠ '\n' ∧ c.toNat < 256 := by
  rw [handler_eq, List.mem_append, List.mem_cons] at h
  rcases h with hname | rfl | hdecimal
  · have hall : ∀ c ∈ verb.name, c ≠ '\n' ∧ c.toNat < 256 := by
      cases verb <;> simp [HttpVerb.name]
    exact hall c hname
  · decide
  · rcases mem_decimal hdecimal with hdigit | rfl
    · have hrange := (Char.isDigit_iff_toNat.mp hdigit).2
      have hnine : '9'.toNat = 57 := rfl
      refine ⟨?_, by omega⟩
      intro h
      exact absurd (h ▸ hdigit) (by decide)
    · decide

theorem space_notMem_decimal (n : ℤ) : ' ' ∉ decimal n := by
  intro h
  rcases mem_decimal h with hdigit | hsign
  · exact absurd hdigit (by decide)
  · exact absurd hsign (by decide)

theorem name_inj {verb verb' : HttpVerb} : verb.name = verb'.name ↔ verb = verb' := by
  cases verb <;> cases verb' <;> simp [HttpVerb.name]

/-- **The result of a handler names the handler and its argument.** -/
theorem handler_inj {verb verb' : HttpVerb} {m n : ℤ} :
    handler verb m = handler verb' n ↔ verb = verb' ∧ m = n := by
  rw [handler_eq, handler_eq, append_cons_inj (space_notMem_decimal m) (space_notMem_decimal n),
    name_inj, decimal_inj]

theorem toLatin1_handler_inj {verb verb' : HttpVerb} {m n : ℤ} :
    toLatin1 (handler verb m) = toLatin1 (handler verb' n) ↔ verb = verb' ∧ m = n := by
  rw [toLatin1_inj (fun _ hc => (mem_handler hc).2) (fun _ hc => (mem_handler hc).2), handler_inj]

theorem newline_notMem_handler (verb : HttpVerb) (n : ℤ) : 10 ∉ toLatin1 (handler verb n) := by
  rw [newline_mem_toLatin1]
  exact fun h => (mem_handler h).1 rfl

/-! ### The last line of a response -/

theorem endsLine_iff {head : Bytes} :
    EndsLine head ↔ head = [] ∨ ∃ lines, head = lines ++ [10] := by
  rcases List.eq_nil_or_concat head with rfl | ⟨lines, b, rfl⟩
  · simp [EndsLine]
  · simp [EndsLine]

theorem lastField_append {head body : Bytes} (hhead : EndsLine head) (hbody : 10 ∉ body) :
    lastField 10 (head ++ body) = body := by
  rw [lastField_eq_iff]
  refine ⟨hbody, ?_⟩
  rcases endsLine_iff.mp hhead with rfl | ⟨lines, rfl⟩
  · exact .inl rfl
  · exact .inr ⟨lines, List.append_assoc ..⟩

/-- A client has written what it captured, from the start. -/
theorem outData_client (d : Bytes) (ops : List Op) :
    (after step ops (new.setIncoming d)).outData = captured ops := by
  have hstart : Captures (new.setIncoming d) (true, []) := captures_step (.setIncoming d)
    ⟨live_new, rfl, rfl⟩
  have hrun := simulation (fun t c op h => captures_step op h) ops hstart
  exact hrun.2.2

/-- **A row passes** exactly when what was captured ends in a line with the method and
`42`, however it was cut into writes; a method with a line break never passes. -/
theorem passes_iff (method : Text) (ops : List Op) :
    invokeAnnotatedSpecificHandler method ops = true ↔ '\n' ∉ method ∧
      ∃ head, EndsLine head ∧ captured ops = head ++ toLatin1 (method ++ " 42".toList) := by
  have hexpected : toLatin1 method ++ toLatin1 " 42".toList = toLatin1 (method ++ " 42".toList) :=
    (List.map_append ..).symm
  have hbreak : 10 ∉ toLatin1 (method ++ " 42".toList) ↔ '\n' ∉ method := by
    rw [newline_mem_toLatin1, List.mem_append, not_or]
    exact and_iff_left (by simp)
  rw [invokeAnnotatedSpecificHandler, createClient, outData_client, hexpected, beq_iff_eq,
    lastField_eq_iff, hbreak]
  refine and_congr_right fun _ => ⟨?_, ?_⟩
  · intro h
    rcases h with h | ⟨lines, h⟩
    · exact ⟨[], endsLine_iff.mpr (.inl rfl), h⟩
    · exact ⟨lines ++ [10], endsLine_iff.mpr (.inr ⟨lines, rfl⟩), h.trans (by simp)⟩
  · intro h
    obtain ⟨head, hhead, h⟩ := h
    rcases endsLine_iff.mp hhead with rfl | ⟨lines, rfl⟩
    · exact .inl h
    · exact .inr ⟨lines, h.trans (by simp)⟩

/-- A row passes on the result of a handler if that is its own, called with 42. -/
theorem passes_of_answered {verb : HttpVerb} {n : ℤ} {ops : List Op} (h : Answered verb n ops)
    (row : HttpVerb) :
    invokeAnnotatedSpecificHandler row.name ops = true ↔ verb = row ∧ n = 42 := by
  obtain ⟨head, hhead, hout⟩ := h
  have hexpected : toLatin1 row.name ++ toLatin1 " 42".toList = toLatin1 (handler row 42) := by
    rw [handler_eq]
    exact (List.map_append ..).symm
  rw [invokeAnnotatedSpecificHandler, createClient, outData_client, hexpected, beq_iff_eq, hout,
    lastField_append hhead (newline_notMem_handler verb n), toLatin1_handler_inj]

/-- **The rows together**: a client that answers every request with the result of some
handler passes all rows exactly when it calls, for each verb, the handler of that verb,
and with 42. -/
theorem rows_pass_iff {ops : HttpVerb → List Op} {dispatch : HttpVerb → HttpVerb × ℤ}
    (h : ∀ row, Answered (dispatch row).1 (dispatch row).2 (ops row)) :
    (∀ row : HttpVerb, invokeAnnotatedSpecificHandler row.name (ops row) = true) ↔
      ∀ row, dispatch row = (row, 42) := by
  refine forall_congr' fun row => ?_
  rw [passes_of_answered (h row), Prod.ext_iff]

/-- A client that reads a little, writes a head in two parts, a result, and closes. -/
def response (called : HttpVerb × ℤ) : List Op :=
  [.read 4, .write (toLatin1 "HTTP/1.0 200 OK\r\nConnection: ".toList),
    .write (toLatin1 "Close\r\n\r\n".toList), .write (toLatin1 (handler called.1 called.2)), .close]

/-- `HEAD` is taken for `GET`. -/
def headAsGet (row : HttpVerb) : HttpVerb × ℤ := if row = .HEAD then (.GET, 42) else (row, 42)

theorem answered_response (called : HttpVerb × ℤ) :
    Answered called.1 called.2 (response called) := by
  refine ⟨toLatin1 "HTTP/1.0 200 OK\r\nConnection: ".toList ++
    toLatin1 "Close\r\n\r\n".toList, ?_, rfl⟩
  rw [endsLine_iff]
  right
  refine ⟨toLatin1 "HTTP/1.0 200 OK\r\nConnection: ".toList ++
    toLatin1 "Close\r\n\r".toList, ?_⟩
  rw [List.append_assoc]
  rfl

theorem rows_pass_iff_headAsGet :
    (∀ row, Answered (headAsGet row).1 (headAsGet row).2 (response (headAsGet row))) ∧
      ((∀ row : HttpVerb,
          invokeAnnotatedSpecificHandler row.name (response (headAsGet row)) = true) ↔
        ∀ row, headAsGet row = (row, 42)) :=
  ⟨fun row => answered_response (headAsGet row),
    rows_pass_iff fun row => answered_response (headAsGet row)⟩

end FrameworkTests.RestfulHttpNodeTest
