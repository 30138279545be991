import BobbyOS.Network.Connection

/-!
# Which handshakes are answered

`parseWebSocketRequest` reads the lines behind the first one up to a line that
has no space before its last character, keeps the last value of each header and
then consults four of them.  The loop drops the last character of a line whatever
it is, and the last check looks at a header `websocket:` instead of the value of
`Upgrade:`.

* `readHeaders_eq`: what the loop collects, from the lines alone.
* `parseWebSocketRequest_ok_iff`: which requests are accepted, and with which key.
* `Misread`: the kinds of header lines on which the loop or the checks go wrong.
* `answers_iff`: the handshake is answered as the protocol asks exactly if the
  first line is refused or the header lines are of none of these kinds.
-/

namespace Server

open WebSocket

/-! ### What a request asks for -/

/-- The header lines, up to the blank line. -/
def headerLines (ls : List (List Byte)) : List (List Byte) :=
  ls.takeWhile fun line => line ≠ [] ∧ line ≠ [13]

/-- The line `name value`, ended by a carriage return, is among the header lines. -/
def Includes (ls : List (List Byte)) (name : String) (value : List Byte) : Prop :=
  chars name ++ 32 :: value ++ [13] ∈ headerLines ls

/-- The header lines ask for a WebSocket with this key. -/
structure Asks (ls : List (List Byte)) (key : List Byte) : Prop where
  version : Includes ls "Sec-WebSocket-Version:" (chars "13")
  key : Includes ls "Sec-WebSocket-Key:" key
  connection : Includes ls "Connection:" (chars "Upgrade")
  upgrade : Includes ls "Upgrade:" (chars "websocket")

/-- The first line is there, and has the method, the route and the version. -/
structure FirstLine (req expectedRoute : List Byte) : Prop where
  ended : 10 ∈ req
  method : finds ((lines req).headD []) (chars "GET")
  route : finds ((lines req).headD []) expectedRoute 3
  http : finds ((lines req).headD []) (chars "HTTP/1.1") 3

/-- The key is returned to a request that asks for the upgrade, any other request
is refused, and no line loses a character it does not have. -/
def Answers (req expectedRoute : List Byte) : Prop :=
  match parseWebSocketRequest req expectedRoute with
  | .ok key => FirstLine req expectedRoute ∧ Asks (lines req).tail key
  | .error (.badWebSocketRequest _) =>
      ¬ (FirstLine req expectedRoute ∧ ∃ key, Asks (lines req).tail key)
  | .error _ => False

/-! ### What the loop collects -/

/-- The line has a space before its last character. -/
def hasSpace (line : List Byte) : Bool := 32 ∈ line.dropLast

/-- The lines the loop reads before the one that stops it. -/
def collected (ls : List (List Byte)) : List (List Byte) := ls.takeWhile hasSpace

/-- The line that stops the loop, if one does. -/
def stopLine (ls : List (List Byte)) : Option (List Byte) := (ls.dropWhile hasSpace).head?

/-- The value a line gives to a header. -/
def valueIn (name line : List Byte) : Option (List Byte) :=
  let text := line.dropLast
  if text.take (text.idxOf 32) = name then some (text.drop (text.idxOf 32 + 1)) else none

/-- The value of a header, the last one it is given. -/
def header (ls : List (List Byte)) (name : List Byte) : Option (List Byte) :=
  (collected ls).reverse.findSome? (valueIn name)

/-- **The loop.**  It takes a character from an empty line exactly if such a line
stops it, and otherwise collects the last value of each header. -/
theorem readHeaders_eq (ls : List (List Byte)) (headers : List Byte → Option (List Byte)) :
    readHeaders headers ls =
      if stopLine ls = some [] then .error .popBack
      else .ok fun name => (header ls name).or (headers name) := by
  induction ls generalizing headers with
  | nil => rfl
  | cons line rest ih =>
      rw [readHeaders]
      by_cases hempty : line = []
      · subst hempty
        rfl
      rw [if_neg hempty]
      by_cases hspace : 32 ∈ line.dropLast
      · have hstop : stopLine (line :: rest) = stopLine rest := by
          simp only [stopLine, List.dropWhile_cons, hasSpace, hspace, decide_true, if_true]
        have hcollected : collected (line :: rest) = line :: collected rest := by
          simp only [collected, List.takeWhile_cons, hasSpace, hspace, decide_true, if_true]
        simp only [if_pos hspace]
        rw [ih, hstop]
        congr 2
        funext name
        rw [header, header, hcollected, List.reverse_cons, List.findSome?_append, Option.or_assoc]
        congr 1
        rw [List.findSome?_cons, List.findSome?_nil, valueIn]
        by_cases hname : name = line.dropLast.take (line.dropLast.idxOf 32)
        · simp only [if_pos hname, if_pos hname.symm, Option.some_or]
        · simp only [if_neg hname, if_neg (Ne.symm hname), Option.none_or]
      · have hstop : stopLine (line :: rest) = some line := by
          simp only [stopLine, List.dropWhile_cons, hasSpace, hspace, decide_false,
            Bool.false_eq_true, if_false, List.head?_cons]
        have hcollected : collected (line :: rest) = [] := by
          simp only [collected, List.takeWhile_cons, hasSpace, hspace, decide_false,
            Bool.false_eq_true, if_false]
        simp only [if_neg hspace]
        rw [hstop, if_neg (fun h => hempty (Option.some.inj h))]
        congr 1
        funext name
        rw [header, hcollected]
        rfl

/-! ### The checks -/

/-- What the checks behind the loop let pass. -/
structure Passes (ls : List (List Byte)) (key : List Byte) : Prop where
  version : header ls (chars "Sec-WebSocket-Version:") = some (chars "13")
  key : header ls (chars "Sec-WebSocket-Key:") = some key
  connection : header ls (chars "Connection:") = some (chars "Upgrade")
  upgrade : header ls (chars "Upgrade:") ≠ none
  websocket : header ls (chars "websocket:") ≠ some (chars "13")

/-- A request is refused, accepted, or stops at an empty line. -/
theorem parseWebSocketRequest_cases (req expectedRoute : List Byte) :
    (¬ FirstLine req expectedRoute ∧
      ∃ field, parseWebSocketRequest req expectedRoute = .error (.badWebSocketRequest field)) ∨
    (FirstLine req expectedRoute ∧ stopLine (lines req).tail = some [] ∧
      parseWebSocketRequest req expectedRoute = .error .popBack) ∨
    (FirstLine req expectedRoute ∧ stopLine (lines req).tail ≠ some [] ∧
      ((∃ key, Passes (lines req).tail key ∧ parseWebSocketRequest req expectedRoute = .ok key) ∨
        (¬ (∃ key, Passes (lines req).tail key) ∧
          ∃ field, parseWebSocketRequest req expectedRoute =
            .error (.badWebSocketRequest field)))) := by
  unfold parseWebSocketRequest
  by_cases hended : 10 ∈ req
  case neg =>
    refine .inl ⟨fun h => hended h.ended, "Empty request", ?_⟩
    rw [if_pos hended]
  rw [if_neg (not_not_intro hended)]
  dsimp only
  by_cases hmethod : finds ((lines req).headD []) (chars "GET")
  case neg =>
    refine .inl ⟨fun h => hmethod h.method, "Bad or no method", ?_⟩
    simp only [hmethod, Bool.not_false, if_true]
  by_cases hroute : finds ((lines req).headD []) expectedRoute 3
  case neg =>
    refine .inl ⟨fun h => hroute h.route, "Bad or no route", ?_⟩
    simp only [hmethod, hroute, Bool.not_true, Bool.not_false, Bool.false_eq_true, if_false,
      if_true]
  by_cases hhttp : finds ((lines req).headD []) (chars "HTTP/1.1") 3
  case neg =>
    refine .inl ⟨fun h => hhttp h.http, "Bad or no HTTP version", ?_⟩
    simp only [hmethod, hroute, hhttp, Bool.not_true, Bool.not_false, Bool.false_eq_true,
      if_false, if_true]
  refine .inr ?_
  have hfirst : FirstLine req expectedRoute := ⟨hended, hmethod, hroute, hhttp⟩
  simp only [hmethod, hroute, hhttp, Bool.not_true, Bool.false_eq_true, if_false]
  rw [readHeaders_eq]
  by_cases hstop : stopLine (lines req).tail = some []
  · refine .inl ⟨hfirst, hstop, ?_⟩
    rw [if_pos hstop]
    rfl
  refine .inr ⟨hfirst, hstop, ?_⟩
  rw [if_neg hstop]
  simp only [Option.or_none, bind, Except.bind]
  -- the four checks in the order of the source; the first that fails refuses
  by_cases hversion : header (lines req).tail (chars "Sec-WebSocket-Version:") = some (chars "13")
  case neg =>
    refine .inr ⟨fun ⟨_, h⟩ => hversion h.version, "Bad or no websocket version", ?_⟩
    rw [if_pos hversion]
  rw [if_neg (not_not_intro hversion)]
  cases hkey : header (lines req).tail (chars "Sec-WebSocket-Key:") with
  | none =>
      refine .inr ⟨fun ⟨_, h⟩ => ?_, "No websocket key", if_pos rfl⟩
      cases hkey.symm.trans h.key
  | some key =>
  rw [if_neg (Option.some_ne_none key)]
  by_cases hconnection : header (lines req).tail (chars "Connection:") = some (chars "Upgrade")
  case neg =>
    refine .inr ⟨fun ⟨_, h⟩ => hconnection h.connection, "Bad or no connection header", ?_⟩
    rw [if_pos hconnection]
  rw [if_neg (not_not_intro hconnection)]
  by_cases hupgrade : header (lines req).tail (chars "Upgrade:") = none ∨
      header (lines req).tail (chars "websocket:") = some (chars "13")
  · refine .inr ⟨fun ⟨_, h⟩ => hupgrade.elim h.upgrade h.websocket,
      "Bad or no websocket upgrade header", if_pos hupgrade⟩
  · rw [if_neg hupgrade]
    exact .inl ⟨key, ⟨hversion, hkey, hconnection, fun h => hupgrade (.inl h),
      fun h => hupgrade (.inr h)⟩, rfl⟩

/-- The checks pass with one key. -/
theorem Passes.unique {ls : List (List Byte)} {key key' : List Byte} (h : Passes ls key)
    (h' : Passes ls key') : key = key' :=
  Option.some.inj (h.key.symm.trans h'.key)

/-- **Acceptance.**  A request is answered exactly if its first line is right, no
empty line stops the loop, and what the loop collects passes the checks. -/
theorem parseWebSocketRequest_ok_iff (req expectedRoute key : List Byte) :
    parseWebSocketRequest req expectedRoute = .ok key ↔
      FirstLine req expectedRoute ∧ stopLine (lines req).tail ≠ some [] ∧
        Passes (lines req).tail key := by
  rcases parseWebSocketRequest_cases req expectedRoute with
    ⟨hfirst, field, hparse⟩ | ⟨hfirst, hstop, hparse⟩ |
      ⟨hfirst, hstop, ⟨key', hpasses, hparse⟩ | ⟨hpasses, field, hparse⟩⟩ <;> rw [hparse]
  · exact ⟨fun h => (by cases h), fun h => absurd h.1 hfirst⟩
  · exact ⟨fun h => (by cases h), fun h => absurd hstop h.2.1⟩
  · constructor
    · intro h
      obtain rfl := Except.ok.inj h
      exact ⟨hfirst, hstop, hpasses⟩
    · intro h
      rw [hpasses.unique h.2.2]
  · exact ⟨fun h => (by cases h), fun h => absurd ⟨key, h.2.2⟩ hpasses⟩

/-! ### Where the loop and the checks do what they are for -/

/-- The loop does not end at an empty line, what passes the checks does ask for
the upgrade, with this key, and what asks for it does pass. -/
structure Plain (ls : List (List Byte)) : Prop where
  stop : stopLine ls ≠ some []
  asked : ∀ key, Passes ls key → Asks ls key
  kept : ∀ key, Asks ls key → ∃ key', Passes ls key'

/-- The handshake is answered as the protocol asks exactly if the first line is refused or
the header lines are plain. -/
theorem answers_iff_plain (req expectedRoute : List Byte) :
    Answers req expectedRoute ↔ (FirstLine req expectedRoute → Plain (lines req).tail) := by
  unfold Answers
  rcases parseWebSocketRequest_cases req expectedRoute with
    ⟨hfirst, field, hparse⟩ | ⟨hfirst, hstop, hparse⟩ |
      ⟨hfirst, hstop, ⟨key, hpasses, hparse⟩ | ⟨hpasses, field, hparse⟩⟩ <;> rw [hparse]
  · exact ⟨fun _ h => absurd h hfirst, fun _ h => hfirst h.1⟩
  · exact ⟨False.elim, fun h => (h hfirst).stop hstop⟩
  · constructor
    · intro ⟨_, hasks⟩ _
      refine ⟨hstop, fun key' h => ?_, fun _ _ => ⟨key, hpasses⟩⟩
      rw [← hpasses.unique h]
      exact hasks
    · intro h
      exact ⟨hfirst, (h hfirst).asked key hpasses⟩
  · constructor
    · intro h _
      exact ⟨hstop, fun key hp => absurd ⟨key, hp⟩ hpasses,
        fun key ha => absurd ⟨hfirst, key, ha⟩ h⟩
    · intro h ⟨_, key, ha⟩
      exact hpasses ((h hfirst).kept key ha)

/-! ### Lines and values -/

/-- The loop reads no further than the blank line. -/
theorem collected_prefix (ls : List (List Byte)) : collected ls <+: headerLines ls := by
  induction ls with
  | nil => exact List.prefix_rfl
  | cons line rest ih =>
      unfold collected headerLines at *
      rw [List.takeWhile_cons, List.takeWhile_cons]
      by_cases hspace : hasSpace line
      · have hline : line ≠ [] ∧ line ≠ [13] := by
          constructor
          · rintro rfl
            cases hspace
          · rintro rfl
            cases hspace
        simp only [hspace, hline, ne_eq, not_false_eq_true, and_self, decide_true, if_true]
        exact (List.prefix_cons_inj line).mpr ih
      · simp only [hspace, Bool.false_eq_true, if_false]
        exact List.nil_prefix

/-- Where every header line has a space, the loop collects them all. -/
theorem collected_eq_headerLines {ls : List (List Byte)}
    (hspaced : ∀ line ∈ headerLines ls, hasSpace line) : collected ls = headerLines ls := by
  unfold collected
  induction ls with
  | nil => rfl
  | cons line rest ih =>
      unfold headerLines at *
      rw [List.takeWhile_cons] at hspaced ⊢
      rw [List.takeWhile_cons]
      by_cases hline : line ≠ [] ∧ line ≠ [13]
      · rw [if_pos (decide_eq_true hline)] at hspaced ⊢
        rw [if_pos (hspaced line List.mem_cons_self)]
        exact congrArg (line :: ·) (ih fun l hl => hspaced l (List.mem_cons_of_mem _ hl))
      · have hspace : ¬ hasSpace line = true := by
          intro hspace
          refine hline ⟨?_, ?_⟩
          · rintro rfl
            cases hspace
          · rintro rfl
            cases hspace
        rw [if_neg hspace, if_neg (by simpa using hline)]

/-- A line with a space gives a value exactly if it is the name, a space, the value and
one more character. -/
theorem valueIn_eq_some_iff {name line value : List Byte} (hname : 32 ∉ name)
    (hspace : hasSpace line) :
    valueIn name line = some value ↔ ∃ c, line = name ++ 32 :: value ++ [c] := by
  have hmem : 32 ∈ line.dropLast := by simpa [hasSpace] using hspace
  have hne : line ≠ [] := by
    rintro rfl
    cases hmem
  unfold valueIn
  dsimp only
  constructor
  · intro h
    split at h
    case isFalse => cases h
    case isTrue htake =>
      have hdrop := Option.some.inj h
      refine ⟨line.getLast hne, ?_⟩
      conv_lhs => rw [← List.dropLast_append_getLast hne]
      congr 1
      have hlt : line.dropLast.idxOf 32 < line.dropLast.length := List.idxOf_lt_length_iff.mpr hmem
      rw [← htake, ← hdrop]
      conv_lhs => rw [← List.take_append_drop (line.dropLast.idxOf 32) line.dropLast]
      rw [List.drop_eq_getElem_cons hlt, List.getElem_idxOf hlt]
  · intro ⟨c, h⟩
    have hdrop : line.dropLast = name ++ 32 :: value := by
      rw [h, List.dropLast_concat]
    have hidx : (name ++ 32 :: value).idxOf 32 = name.length := by
      rw [List.idxOf_append_of_notMem hname, List.idxOf_cons_self, Nat.add_zero]
    rw [hdrop]
    simp only [hidx, List.take_left', if_true]
    congr 1
    rw [← List.drop_drop, List.drop_left', List.drop_one, List.tail_cons]
    rfl

/-- Where the line ends in a carriage return, that is the character more. -/
theorem valueIn_eq_of_ended {name line value : List Byte} (hname : 32 ∉ name)
    (hspace : hasSpace line) (hended : line.getLast? = some 13) :
    valueIn name line = some value ↔ line = name ++ 32 :: value ++ [13] := by
  rw [valueIn_eq_some_iff hname hspace]
  constructor
  · intro ⟨c, h⟩
    rw [h, List.getLast?_concat] at hended
    rw [h, Option.some.inj hended]
  · exact fun h => ⟨13, h⟩

/-- The line that counts for a header: the last one that the loop collects and that gives
it a value. -/
def counted (ls : List (List Byte)) (name : List Byte) : Option (List Byte) :=
  (collected ls).reverse.find? fun line => (valueIn name line).isSome

/-- The value of a header is that of the line that counts. -/
theorem header_eq_counted (ls : List (List Byte)) (name : List Byte) :
    header ls name = (counted ls name).bind (valueIn name) := by
  unfold header counted
  induction (collected ls).reverse with
  | nil => rfl
  | cons line rest ih =>
      rw [List.findSome?_cons, List.find?_cons]
      cases hvalue : valueIn name line with
      | none => exact ih
      | some value => exact hvalue.symm

/-- The line that counts is one of those collected. -/
theorem mem_collected {ls : List (List Byte)} {name line : List Byte}
    (h : counted ls name = some line) : line ∈ collected ls :=
  List.mem_reverse.mp (List.mem_of_find?_eq_some h)

/-- A header has a value exactly if the line that counts gives it. -/
theorem header_eq_some_iff {ls : List (List Byte)} {name value : List Byte} (hname : 32 ∉ name) :
    header ls name = some value ↔
      ∃ c, counted ls name = some (name ++ 32 :: value ++ [c]) := by
  rw [header_eq_counted, Option.bind_eq_some_iff]
  constructor
  · intro ⟨line, hline, hvalue⟩
    have hspace : hasSpace line := List.mem_takeWhile_imp (mem_collected hline)
    obtain ⟨c, rfl⟩ := (valueIn_eq_some_iff hname hspace).mp hvalue
    exact ⟨c, hline⟩
  · intro ⟨c, hline⟩
    have hspace : hasSpace _ := List.mem_takeWhile_imp (mem_collected hline)
    exact ⟨_, hline, (valueIn_eq_some_iff hname hspace).mpr ⟨c, rfl⟩⟩

/-- A header without a value has no line that counts. -/
theorem header_eq_none_iff {ls : List (List Byte)} {name : List Byte} :
    header ls name = none ↔ counted ls name = none := by
  rw [header, counted, List.findSome?_eq_none_iff, List.find?_eq_none]
  refine forall₂_congr fun line _ => ?_
  rw [Bool.not_eq_true, Option.isSome_eq_false_iff, Option.isNone_iff_eq_none]

/-- A header line that does not count for its header stands behind a line without a space. -/
theorem exists_spaceless {ls : List (List Byte)} {name : String} {value : List Byte}
    (hname : 32 ∉ chars name) (hincl : Includes ls name value)
    (hnone : counted ls (chars name) = none) : ∃ line ∈ headerLines ls, ¬ hasSpace line := by
  by_contra hall
  push Not at hall
  have hmem : chars name ++ 32 :: value ++ [13] ∈ collected ls := by
    rw [collected_eq_headerLines hall]
    exact hincl
  have hspace : hasSpace (chars name ++ 32 :: value ++ [13]) := List.mem_takeWhile_imp hmem
  refine List.find?_eq_none.mp hnone _ (List.mem_reverse.mpr hmem) ?_
  rw [(valueIn_eq_some_iff hname hspace).mpr ⟨13, rfl⟩, Option.isSome_some]

/-! ### How a request is misread -/

/-- The headers that are asked for by value, for this key. -/
def needed (key : List Byte) : List (String × List Byte) :=
  [("Sec-WebSocket-Version:", chars "13"), ("Sec-WebSocket-Key:", key),
    ("Connection:", chars "Upgrade")]

/-- The kinds of header lines that are misread. -/
inductive Misread (ls : List (List Byte)) : Prop
  /-- The loop takes a character from an empty line. -/
  | emptyLine (h : stopLine ls = some [])
  /-- The checks pass, and the upgrade is to another protocol. -/
  | otherProtocol {key : List Byte} (h : Passes ls key)
      (hupgrade : ¬ Includes ls "Upgrade:" (chars "websocket"))
  /-- The upgrade is asked for, and there is a header `websocket: 13`. -/
  | websocketHeader {key : List Byte} {c : Byte} (h : Asks ls key)
      (hline : counted ls (chars "websocket:") =
        some (chars "websocket:" ++ 32 :: chars "13" ++ [c]))
  /-- The checks pass by a line that does not end in a carriage return. -/
  | bareLF {key value : List Byte} {name : String} {c : Byte} (h : Passes ls key)
      (hneeded : (name, value) ∈ needed key)
      (hline : counted ls (chars name) = some (chars name ++ 32 :: value ++ [c])) (hc : c ≠ 13)
      (hnot : ¬ Includes ls name value)
  /-- The upgrade is asked for, and a header stands behind a line without a space. -/
  | spaceless {key value line : List Byte} {name : String} (h : Asks ls key)
      (hneeded : (name, value) ∈ ("Upgrade:", chars "websocket") :: needed key)
      (hline : line ∈ headerLines ls) (hspace : ¬ hasSpace line)
      (hnone : counted ls (chars name) = none)
  /-- The upgrade is asked for, and a later line gives the version or the connection another
  value. -/
  | repeated {key value other : List Byte} {name : String} {c : Byte} (h : Asks ls key)
      (hneeded : (name, value) ∈ needed key) (hname : name ≠ "Sec-WebSocket-Key:")
      (hline : counted ls (chars name) = some (chars name ++ 32 :: other ++ [c]))
      (hother : other ≠ value)

variable {ls : List (List Byte)} {key value : List Byte} {name : String}

theorem needed_version : ("Sec-WebSocket-Version:", chars "13") ∈ needed key :=
  List.mem_cons_self

theorem needed_key : ("Sec-WebSocket-Key:", key) ∈ needed key :=
  List.mem_cons_of_mem _ List.mem_cons_self

theorem needed_connection : ("Connection:", chars "Upgrade") ∈ needed key :=
  List.mem_cons_of_mem _ (List.mem_cons_of_mem _ List.mem_cons_self)

/-- No name of a header has a space. -/
theorem spaceless_name (h : (name, value) ∈ ("Upgrade:", chars "websocket") :: needed key) :
    32 ∉ chars name := by
  simp only [needed, List.mem_cons, Prod.mk.injEq, List.not_mem_nil, or_false] at h
  rcases h with ⟨rfl, -⟩ | ⟨rfl, -⟩ | ⟨rfl, -⟩ | ⟨rfl, -⟩ <;> decide

theorem needed_name (h : (name, value) ∈ needed key) : 32 ∉ chars name :=
  spaceless_name (List.mem_cons_of_mem _ h)

/-- A request for the upgrade has each header line that is needed. -/
theorem Asks.includes (h : Asks ls key)
    (hneeded : (name, value) ∈ ("Upgrade:", chars "websocket") :: needed key) :
    Includes ls name value := by
  simp only [needed, List.mem_cons, Prod.mk.injEq, List.not_mem_nil, or_false] at hneeded
  rcases hneeded with ⟨rfl, rfl⟩ | ⟨rfl, rfl⟩ | ⟨rfl, rfl⟩ | ⟨rfl, rfl⟩
  · exact h.upgrade
  · exact h.version
  · exact h.key
  · exact h.connection

/-- What passes the checks has each header with its value. -/
theorem Passes.header (h : Passes ls key) (hneeded : (name, value) ∈ needed key) :
    header ls (chars name) = some value := by
  simp only [needed, List.mem_cons, Prod.mk.injEq, List.not_mem_nil, or_false] at hneeded
  rcases hneeded with ⟨rfl, rfl⟩ | ⟨rfl, rfl⟩ | ⟨rfl, rfl⟩
  · exact h.version
  · exact h.key
  · exact h.connection

/-- A needed header that counts is among the header lines, or its line has no carriage
return. -/
theorem included_of_passes (hread : ¬ Misread ls) (h : Passes ls key)
    (hneeded : (name, value) ∈ needed key) : Includes ls name value := by
  by_contra hnot
  obtain ⟨c, hline⟩ := (header_eq_some_iff (needed_name hneeded)).mp (h.header hneeded)
  refine hread (.bareLF h hneeded hline (fun hc => hnot ?_) hnot)
  subst hc
  have hcollected := collected_prefix ls
  exact hcollected.subset (mem_collected hline)

/-- A header that is asked for has a line that counts. -/
theorem counted_of_asks (hread : ¬ Misread ls) (h : Asks ls key)
    (hneeded : (name, value) ∈ ("Upgrade:", chars "websocket") :: needed key) :
    ∃ v, Server.header ls (chars name) = some v := by
  rw [← Option.ne_none_iff_exists', Ne, header_eq_none_iff]
  intro hnone
  obtain ⟨line, hline, hspace⟩ :=
    exists_spaceless (spaceless_name hneeded) (h.includes hneeded) hnone
  exact hread (.spaceless h hneeded hline hspace hnone)

/-- The version and the connection that are asked for count. -/
theorem header_of_asks (hread : ¬ Misread ls) (h : Asks ls key)
    (hneeded : (name, value) ∈ needed key) (hname : name ≠ "Sec-WebSocket-Key:") :
    Server.header ls (chars name) = some value := by
  obtain ⟨other, hother⟩ := counted_of_asks hread h (List.mem_cons_of_mem _ hneeded)
  by_cases heq : other = value
  · rw [hother, heq]
  · obtain ⟨c, hline⟩ := (header_eq_some_iff (needed_name hneeded)).mp hother
    exact absurd (.repeated h hneeded hname hline heq) hread

/-- **Misread lines.**  The header lines are plain unless they are of one of these kinds. -/
theorem plain_iff_not_misread (ls : List (List Byte)) : Plain ls ↔ ¬ Misread ls := by
  constructor
  · intro ⟨hstop, hasked, hkept⟩ hmisread
    cases hmisread with
    | emptyLine h => exact hstop h
    | otherProtocol h hupgrade => exact hupgrade (hasked _ h).upgrade
    | websocketHeader h hline =>
        obtain ⟨key', hp⟩ := hkept _ h
        exact hp.websocket ((header_eq_some_iff (by decide)).mpr ⟨_, hline⟩)
    | bareLF h hneeded hline hc hnot =>
        exact hnot ((hasked _ h).includes (List.mem_cons_of_mem _ hneeded))
    | spaceless h hneeded hline hspace hnone =>
        obtain ⟨key', hp⟩ := hkept _ h
        have hnone := header_eq_none_iff.mpr hnone
        simp only [needed, List.mem_cons, Prod.mk.injEq, List.not_mem_nil, or_false] at hneeded
        rcases hneeded with ⟨rfl, -⟩ | ⟨rfl, -⟩ | ⟨rfl, -⟩ | ⟨rfl, -⟩
        · exact hp.upgrade hnone
        · cases hnone.symm.trans hp.version
        · cases hnone.symm.trans hp.key
        · cases hnone.symm.trans hp.connection
    | repeated h hneeded hname hline hother =>
        obtain ⟨key', hp⟩ := hkept _ h
        have hvalue := (header_eq_some_iff (needed_name hneeded)).mpr ⟨_, hline⟩
        simp only [needed, List.mem_cons, Prod.mk.injEq, List.not_mem_nil, or_false] at hneeded
        rcases hneeded with ⟨rfl, rfl⟩ | ⟨rfl, -⟩ | ⟨rfl, rfl⟩
        · exact hother (Option.some.inj (hvalue.symm.trans hp.version))
        · exact hname rfl
        · exact hother (Option.some.inj (hvalue.symm.trans hp.connection))
  · intro hread
    refine ⟨fun h => hread (.emptyLine h), fun key h => ?_, fun key h => ?_⟩
    · refine ⟨included_of_passes hread h needed_version, included_of_passes hread h needed_key,
        included_of_passes hread h needed_connection, ?_⟩
      by_contra hupgrade
      exact hread (.otherProtocol h hupgrade)
    · obtain ⟨key', hkey⟩ := counted_of_asks hread h (List.mem_cons_of_mem _ needed_key)
      obtain ⟨v, hupgrade⟩ := counted_of_asks hread h List.mem_cons_self
      refine ⟨key', header_of_asks hread h needed_version (by decide), hkey,
        header_of_asks hread h needed_connection (by decide), fun hnone => ?_,
        fun hwebsocket => ?_⟩
      · cases hnone.symm.trans hupgrade
      · obtain ⟨c, hline⟩ := (header_eq_some_iff (by decide)).mp hwebsocket
        exact hread (.websocketHeader h hline)

/-- **The handshake.**  It is answered as the protocol asks exactly if the first line is
refused or the header lines are not misread. -/
theorem answers_iff (req expectedRoute : List Byte) :
    Answers req expectedRoute ↔ (FirstLine req expectedRoute → ¬ Misread (lines req).tail) := by
  rw [answers_iff_plain, plain_iff_not_misread]

/-! ### Well-formed header lines -/

/-- Each header line has a name and a value, ends in a carriage return, and gives
a header that no other line gives. -/
structure WellFormed (ls : List (List Byte)) : Prop where
  spaced : ∀ line ∈ headerLines ls, hasSpace line
  ended : ∀ line ∈ headerLines ls, line.getLast? = some 13
  once : (headerLines ls).Pairwise fun line line' =>
    line.dropLast.take (line.dropLast.idxOf 32) ≠ line'.dropLast.take (line'.dropLast.idxOf 32)

/-- Well-formed header lines are all collected. -/
theorem WellFormed.collected {ls : List (List Byte)} (h : WellFormed ls) :
    collected ls = headerLines ls :=
  collected_eq_headerLines h.spaced

/-- In well-formed header lines a header has a value exactly if they include it. -/
theorem WellFormed.header_eq_some_iff {ls : List (List Byte)} (h : WellFormed ls) {name : String}
    {value : List Byte} (hname : 32 ∉ chars name) :
    header ls (chars name) = some value ↔ Includes ls name value := by
  have hvalue : ∀ line ∈ headerLines ls, ∀ v,
      valueIn (chars name) line = some v ↔ line = chars name ++ 32 :: v ++ [13] :=
    fun line hline v => valueIn_eq_of_ended hname (h.spaced line hline) (h.ended line hline)
  rw [header, h.collected, List.findSome?_eq_some_iff]
  constructor
  · intro ⟨later, line, earlier, hsplit, hline, _⟩
    have hmem : line ∈ headerLines ls := by
      rw [← List.mem_reverse, hsplit]
      exact List.mem_append_right _ List.mem_cons_self
    rw [Includes, ← (hvalue line hmem value).mp hline]
    exact hmem
  · intro hincl
    obtain ⟨later, earlier, hsplit⟩ := List.append_of_mem (List.mem_reverse.mpr hincl)
    have hval := (hvalue _ hincl value).mpr rfl
    refine ⟨later, _, earlier, hsplit, hval, fun line hline => ?_⟩
    -- a later line with the same name would be a second one for the header
    rw [valueIn, if_neg]
    intro htake
    have honce := List.pairwise_reverse.mpr h.once
    rw [hsplit] at honce
    refine (List.pairwise_append.mp honce).2.2 line hline _ List.mem_cons_self ?_
    rw [valueIn] at hval
    split at hval
    case isFalse => cases hval
    case isTrue htake' => rw [htake, htake']

/-- **Well-formed header lines.**  They are plain exactly if the loop ends at the
blank line and, when the other checks pass, the protocol to upgrade to is
`websocket` or else a header `websocket:` is 13. -/
theorem WellFormed.plain_iff {ls : List (List Byte)} (h : WellFormed ls) :
    Plain ls ↔ stopLine ls ≠ some [] ∧
      ∀ key, Includes ls "Sec-WebSocket-Version:" (chars "13") →
        Includes ls "Sec-WebSocket-Key:" key → Includes ls "Connection:" (chars "Upgrade") →
        (Includes ls "Upgrade:" (chars "websocket") ↔
          (∃ value, Includes ls "Upgrade:" value) ∧ ¬ Includes ls "websocket:" (chars "13")) := by
  have hversion : header ls (chars "Sec-WebSocket-Version:") = some (chars "13") ↔
      Includes ls "Sec-WebSocket-Version:" (chars "13") := h.header_eq_some_iff (by decide)
  have hkey : ∀ key, header ls (chars "Sec-WebSocket-Key:") = some key ↔
      Includes ls "Sec-WebSocket-Key:" key := fun _ => h.header_eq_some_iff (by decide)
  have hconnection : header ls (chars "Connection:") = some (chars "Upgrade") ↔
      Includes ls "Connection:" (chars "Upgrade") := h.header_eq_some_iff (by decide)
  have hupgrade : header ls (chars "Upgrade:") ≠ none ↔ ∃ value, Includes ls "Upgrade:" value := by
    rw [Option.ne_none_iff_exists']
    exact exists_congr fun value => h.header_eq_some_iff (by decide)
  have hwebsocket : header ls (chars "websocket:") = some (chars "13") ↔
      Includes ls "websocket:" (chars "13") := h.header_eq_some_iff (by decide)
  constructor
  · intro ⟨hstop, hasked, hkept⟩
    refine ⟨hstop, fun key hv hk hc => ⟨fun hu => ?_, fun hu => ?_⟩⟩
    · obtain ⟨key', hp⟩ := hkept key ⟨hv, hk, hc, hu⟩
      exact ⟨⟨_, hu⟩, fun hw => hp.websocket (hwebsocket.mpr hw)⟩
    · exact (hasked key ⟨hversion.mpr hv, (hkey key).mpr hk, hconnection.mpr hc,
        hupgrade.mpr hu.1, mt hwebsocket.mp hu.2⟩).upgrade
  · intro ⟨hstop, hiff⟩
    refine ⟨hstop, fun key hp => ?_, fun key ha => ⟨key, ?_⟩⟩
    · have hv := hversion.mp hp.version
      have hk := (hkey key).mp hp.key
      have hc := hconnection.mp hp.connection
      exact ⟨hv, hk, hc, (hiff key hv hk hc).mpr
        ⟨hupgrade.mp hp.upgrade, mt hwebsocket.mpr hp.websocket⟩⟩
    · have hu := (hiff key ha.version ha.key ha.connection).mp ha.upgrade
      exact ⟨hversion.mpr ha.version, (hkey key).mpr ha.key, hconnection.mpr ha.connection,
        hupgrade.mpr hu.1, mt hwebsocket.mp hu.2⟩

/-- A request for another protocol is answered as if it were for a WebSocket. -/
theorem upgrade_to_other_answered :
    ¬ Answers
      (chars "GET /res HTTP/1.1\r\nSec-WebSocket-Version: 13\r\nSec-WebSocket-Key: k\r\n" ++
        chars "Connection: Upgrade\r\nUpgrade: h2c\r\n\r\n") (chars "/res") := by
  intro h
  unfold Answers at h
  rw [show parseWebSocketRequest _ _ = .ok (chars "k") by decide +kernel] at h
  have hupgrade := h.2.upgrade
  revert hupgrade
  unfold Includes
  decide +kernel

end Server
