import Nevod.Lib.Words
import Nevod.Lib.Table
import Nevod.Value

/-!
`_cell_connect` in `nevod.py`: the lines typed at the console of a cell, what they
make it send, and the contact book it keeps for the session.
-/

set_option autoImplicit false

namespace Nevod
open Text Keyed

namespace Console

/-- `(cell_id, node_id, enc_pub)`; no key of another length gets into the book. -/
structure Contact where
  cellId : String
  nodeId : String
  encPub : Bytes
  keyLength : encPub.length = 32

instance : DecidableEq Contact := fun c d =>
  decidable_of_iff (c.cellId = d.cellId ∧ c.nodeId = d.nodeId ∧ c.encPub = d.encPub) (by
    cases c
    cases d
    simp)

structure Entry where
  name : String
  contact : Contact
  deriving DecidableEq

/-- `contacts`: a dictionary keeps its keys in the order of their first insertion. -/
abbrev Book := Table Entry.name

def Book.put (book : Book) (e : Entry) : Book :=
  book.upsert e (fun old => { old with contact := e.contact }) (fun _ => rfl)

/-- What `sys.stdin.readline` does. -/
inductive Read where
  | line (s : String)
  | raised

/-- What `cell.send` does; `cancelled` is an exception that is no `Exception`. -/
inductive Sent where
  | done
  | failed (text : String)
  | cancelled

/-- All that one round of the loop may learn. -/
structure Turn where
  connected : Bool
  read : Read
  sent : Sent

inductive Effect where
  | echo (text : String)
  | send (receiver : Contact) (plaintext : Bytes)
  | disconnect
  deriving DecidableEq

def splitAddr (addrStr defaultNodeId : String) : String × String :=
  (Nevod.splitAddr addrStr).getD (addrStr,defaultNodeId)

/-- The key, or the text of the `ValueError`. -/
def readKey (encHex : List Char) : Except String { b : Bytes // b.length = 32 } :=
  match fromHex encHex with
  | .error i =>
    .error ("non-hexadecimal number found in fromhex() arg at position " ++ toString i)
  | .ok b => if h : b.length = 32 then .ok ⟨b,h⟩ else .error "enc_pub must be 32 bytes"

/-- The contact at the address, with the key. -/
def contactAt (nodeId : String) (addrStr encHex : List Char) : Except String Contact :=
  match readKey encHex with
  | .error e => .error ("  bad enc_pub: " ++ e ++ "\n")
  | .ok key =>
    let a := splitAddr (String.ofList addrStr) nodeId
    .ok ⟨a.1,a.2,key.1,key.2⟩

def quitWords : List (List Char) :=
  ["/quit".toList,"/exit".toList,"quit".toList,"exit".toList]

def contactLine (e : Entry) : String :=
  "  " ++ e.name ++ ": " ++ String.ofList (e.contact.cellId.toList.take 16) ++ "...@" ++
    String.ofList (e.contact.nodeId.toList.take 16) ++ "...\n"

def listContacts (book : Book) : List Effect :=
  if book.rows = [] then [.echo "  (no contacts)\n"]
  else book.rows.map (fun e => .echo (contactLine e))

/-- `/add`: what is said, and what is saved. -/
def add (nodeId : String) (parts : List (List Char)) : Except String Entry :=
  match parts with
  | [name,addrStr,encHex] =>
    (contactAt nodeId addrStr encHex).map (fun c => ⟨String.ofList name,c⟩)
  | _ => .error "  usage: /add <alias> <cell_id>[@<node_id>] <enc_pub_hex>\n"

/-- To whom the head of a message line is addressed. -/
def addressee (nodeId : String) (book : Book) (head : List Char) : Except String Contact :=
  match book.find (String.ofList head) with
  | some e => .ok e.contact
  | none =>
    match splitOnce [' '] head with
    | some (addrStr,encHex) => contactAt nodeId addrStr (strip encHex)
    | none => .error ("  unknown alias '" ++ String.ofList head ++
        "' — use /add or provide enc_pub\n")

def sendTo (book : Book) (c : Contact) (message : List Char) : Sent → List Effect × Option Book
  | .done => ([.send c (utf8 (String.ofList message)),.echo "  [sent]\n"],some book)
  | .failed e =>
    ([.send c (utf8 (String.ofList message)),.echo ("  send error: " ++ e ++ "\n")],some book)
  | .cancelled => ([.send c (utf8 (String.ofList message))],none)

/-- The branches for a line that is not empty. -/
def answer (nodeId : String) (book : Book) (line : List Char) (sent : Sent) :
    List Effect × Option Book :=
  if line ∈ quitWords then ([],none)
  else if line = "/contacts".toList then (listContacts book,some book)
  else if "/add ".toList.isPrefixOf line then
    match add nodeId (words (line.drop 5)) with
    | .error text => ([.echo text],some book)
    | .ok e => ([.echo ("  saved: " ++ e.name ++ "\n")],some (book.put e))
  else
    match splitOnce [':',' '] line with
    | none => ([.echo "  ?  type /quit to exit or see usage above\n"],some book)
    | some (head,message) =>
      match addressee nodeId book (strip head) with
      | .error text => ([.echo text],some book)
      | .ok c => sendTo book c message sent

/-- One round of the loop; it goes on with a book, or it is left. -/
def turn (nodeId : String) (book : Book) (t : Turn) : List Effect × Option Book :=
  if t.connected then
    match t.read with
    | .raised => ([.echo "> "],none)
    | .line s =>
      if s = "" then ([.echo "> "],none)
      else
        let line := strip s.toList
        if line = [] then ([.echo "> "],some book)
        else
          let r := answer nodeId book line t.sent
          (.echo "> " :: r.1,r.2)
  else ([],none)

/-- The `finally` block. -/
def closing : List Effect := [.echo "\ndisconnecting...\n",.disconnect]

/-- The session so far, from its book on. -/
def session (nodeId : String) : Book → List Turn → List Effect
  | _,[] => []
  | book,t :: ts =>
    match (turn nodeId book t).2 with
    | none => (turn nodeId book t).1 ++ closing
    | some book' => (turn nodeId book t).1 ++ session nodeId book' ts

/-- The book after these rounds, unless the loop was left. -/
def bookAfter (nodeId : String) : Book → List Turn → Option Book
  | book,[] => some book
  | book,t :: ts =>
    match (turn nodeId book t).2 with
    | none => none
    | some book' => bookAfter nodeId book' ts

theorem Book.find_put (book : Book) (e : Entry) (name : String) :
    (book.put e).find name = if e.name = name then some e else book.find name := by
  unfold Book.put
  rw [Table.find_upsert]
  by_cases hn : name = e.name
  · rw [if_pos hn,if_pos hn.symm]
    cases hf : book.find name with
    | none => rfl
    | some old =>
      have hold := (book.find_eq_some.mp hf).2
      rw [Option.map_some,Option.getD_some,hold,hn]
  · rw [if_neg hn,if_neg (Ne.symm hn)]

/-- The entry that a round saves. -/
def saves (nodeId : String) (t : Turn) : Option Entry :=
  match t.read with
  | .raised => none
  | .line s =>
    if "/add ".toList.isPrefixOf (strip s.toList) then
      (add nodeId (words ((strip s.toList).drop 5))).toOption
    else none

/-- The last entry that was saved under the name. -/
def lastSaved (nodeId : String) (turns : List Turn) (name : String) : Option Entry :=
  (turns.filterMap (saves nodeId)).reverse.find? (fun e => e.name = name)

def sendsOf (effects : List Effect) : List (Contact × Bytes) :=
  effects.filterMap (fun e =>
    match e with
    | .send c m => some (c,m)
    | _ => none)

@[simp] theorem sendsOf_append (a b : List Effect) : sendsOf (a ++ b) = sendsOf a ++ sendsOf b :=
  List.filterMap_append

section

variable {nodeId : String} {book book' : Book} {t : Turn}

theorem sendTo_cases (book : Book) (c : Contact) (message : List Char) (sent : Sent) :
    sendsOf (sendTo book c message sent).1 = [(c,utf8 (String.ofList message))] ∧
      .disconnect ∉ (sendTo book c message sent).1 ∧
      ((sendTo book c message sent).2 = some book ∨ sent = .cancelled ∧
        (sendTo book c message sent).2 = none) := by
  cases sent with
  | done => exact ⟨rfl,by simp [sendTo],.inl rfl⟩
  | failed e => exact ⟨rfl,by simp [sendTo],.inl rfl⟩
  | cancelled => exact ⟨rfl,by simp [sendTo],.inr ⟨rfl,rfl⟩⟩

/-- A line is a message to `c`. -/
def Says (nodeId : String) (book : Book) (line : List Char) (c : Contact) (m : Bytes) : Prop :=
  ∃ head message, splitOnce [':',' '] line = some (head,message) ∧
    addressee nodeId book (strip head) = .ok c ∧ m = utf8 (String.ofList message)

/-- All that a line can do: the loop is left, an entry is saved, a message is sent, or
nothing but text comes of it. -/
theorem answer_cases (nodeId : String) (book : Book) (line : List Char) (sent : Sent) :
    .disconnect ∉ (answer nodeId book line sent).1 ∧
    ((line ∈ quitWords ∧ sendsOf (answer nodeId book line sent).1 = [] ∧
        (answer nodeId book line sent).2 = none) ∨
      (∃ e, "/add ".toList.isPrefixOf line = true ∧ add nodeId (words (line.drop 5)) = .ok e ∧
        sendsOf (answer nodeId book line sent).1 = [] ∧
        (answer nodeId book line sent).2 = some (book.put e)) ∨
      (∃ c m, "/add ".toList.isPrefixOf line = false ∧ Says nodeId book line c m ∧
        sendsOf (answer nodeId book line sent).1 = [(c,m)] ∧
        ((answer nodeId book line sent).2 = some book ∨
          sent = .cancelled ∧ (answer nodeId book line sent).2 = none)) ∨
      (("/add ".toList.isPrefixOf line = true →
          ∃ text, add nodeId (words (line.drop 5)) = .error text) ∧
        sendsOf (answer nodeId book line sent).1 = [] ∧
        (answer nodeId book line sent).2 = some book)) := by
  unfold answer
  split
  · exact ⟨by simp,.inl ⟨by assumption,rfl,rfl⟩⟩
  split
  · rename_i hc
    refine ⟨?_,.inr (.inr (.inr ⟨fun hp => ?_,?_,rfl⟩))⟩
    · unfold listContacts
      split <;> simp
    · rw [hc] at hp
      cases hp
    · unfold listContacts
      split
      · rfl
      · simp [sendsOf]
  split
  · rename_i hp
    split
    · rename_i text ha
      exact ⟨by simp,.inr (.inr (.inr ⟨fun _ => ⟨text,ha⟩,rfl,rfl⟩))⟩
    · rename_i e ha
      exact ⟨by simp,.inr (.inl ⟨e,hp,ha,rfl,rfl⟩)⟩
  · rename_i hp
    have hpf : "/add ".toList.isPrefixOf line = false := Bool.eq_false_iff.mpr hp
    split
    · exact ⟨by simp,.inr (.inr (.inr ⟨fun h => absurd h hp,rfl,rfl⟩))⟩
    · rename_i head message hsplit
      split
      · exact ⟨by simp,.inr (.inr (.inr ⟨fun h => absurd h hp,rfl,rfl⟩))⟩
      · rename_i c hc
        obtain ⟨hs,hd,hend⟩ := sendTo_cases book c message sent
        exact ⟨hd,.inr (.inr (.inl ⟨c,_,hpf,⟨head,message,hsplit,hc,rfl⟩,hs,hend⟩))⟩

/-- The round reads a line, and there is something on it. -/
structure Reads (t : Turn) (s : String) : Prop where
  connected : t.connected = true
  read : t.read = .line s
  nonempty : s ≠ ""

theorem turn_reads {s : String} (h : Reads t s) : turn nodeId book t =
    if strip s.toList = [] then ([.echo "> "],some book)
    else (.echo "> " :: (answer nodeId book (strip s.toList) t.sent).1,
      (answer nodeId book (strip s.toList) t.sent).2) := by
  unfold turn
  simp only [h.connected,h.read,h.nonempty,if_true,if_false]

theorem turn_cases (nodeId : String) (book : Book) (t : Turn) : (∃ s, Reads t s) ∨
    sendsOf (turn nodeId book t).1 = [] ∧ .disconnect ∉ (turn nodeId book t).1 ∧
      (turn nodeId book t).2 = none := by
  unfold turn
  by_cases hc : t.connected = true
  · rw [if_pos hc]
    cases hr : t.read with
    | raised => exact .inr ⟨rfl,by simp,rfl⟩
    | line s =>
      by_cases hs : s = ""
      · exact .inr (by simp [hs,sendsOf])
      · exact .inl ⟨s,hc,hr,hs⟩
  · rw [if_neg hc]
    exact .inr ⟨rfl,by simp,rfl⟩

theorem turn_quiet (nodeId : String) (book : Book) (t : Turn) :
    .disconnect ∉ (turn nodeId book t).1 := by
  rcases turn_cases nodeId book t with ⟨s,hs⟩ | ⟨_,h,_⟩
  · rw [turn_reads hs]
    split
    · simp
    · have := (answer_cases nodeId book (strip s.toList) t.sent).1
      simp [this]
  · exact h

theorem sendsOf_echo (text : String) (effects : List Effect) :
    sendsOf (.echo text :: effects) = sendsOf effects := rfl

/-- What a round sends is a message on its line. -/
theorem turn_sends {c : Contact} {m : Bytes} (h : (c,m) ∈ sendsOf (turn nodeId book t).1) :
    ∃ s, Reads t s ∧ Says nodeId book (strip s.toList) c m := by
  rcases turn_cases nodeId book t with ⟨s,hs⟩ | ⟨hnil,_⟩
  · refine ⟨s,hs,?_⟩
    rw [turn_reads hs] at h
    split at h
    · cases h
    · rw [sendsOf_echo] at h
      rcases (answer_cases nodeId book (strip s.toList) t.sent).2 with
        ⟨_,hno,_⟩ | ⟨_,_,_,hno,_⟩ | ⟨c',m',_,hspoke,hone,_⟩ | ⟨_,hno,_⟩
      · rw [hno] at h
        cases h
      · rw [hno] at h
        cases h
      · rw [hone,List.mem_singleton] at h
        cases h
        exact hspoke
      · rw [hno] at h
        cases h
  · rw [hnil] at h
    cases h

/-- What a round saves replaces what the name stood for. -/
theorem turn_book (h : (turn nodeId book t).2 = some book') (name : String) :
    book'.find name = ((saves nodeId t).filter (fun e => e.name = name)).or (book.find name) := by
  rcases turn_cases nodeId book t with ⟨s,hs⟩ | ⟨_,_,hnone⟩
  · rw [turn_reads hs] at h
    simp only [saves,hs.read]
    split at h
    · rename_i hempty
      cases h
      simp [hempty]
    · rcases (answer_cases nodeId book (strip s.toList) t.sent).2 with
        ⟨_,_,hb⟩ | ⟨e,hp,ha,_,hb⟩ | ⟨_,_,hp,_,_,hb⟩ | ⟨hbad,_,hb⟩
      · rw [hb] at h
        cases h
      · rw [hb] at h
        cases h
        rw [if_pos hp,ha,Book.find_put]
        by_cases hn : e.name = name <;> simp [Except.toOption,Option.filter,hn]
      · have hsame : book' = book := by
          rcases hb with hb | ⟨_,hb⟩ <;> rw [hb] at h <;> cases h
          rfl
        rw [hsame]
        simp only [hp,Bool.false_eq_true,if_false]
        rfl
      · rw [hb] at h
        cases h
        by_cases hp : "/add ".toList.isPrefixOf (strip s.toList) = true
        · obtain ⟨text,ha⟩ := hbad hp
          rw [if_pos hp,ha]
          rfl
        · rw [if_neg hp]
          rfl
  · rw [hnone] at h
    cases h

theorem session_append {pre : List Turn} {b : Book} (h : bookAfter nodeId book pre = some b)
    (ts : List Turn) :
    session nodeId book (pre ++ ts) = session nodeId book pre ++ session nodeId b ts := by
  induction pre generalizing book with
  | nil =>
    cases h
    rfl
  | cons t pre ih =>
    simp only [bookAfter] at h
    cases ht : (turn nodeId book t).2 with
    | none => simp [ht] at h
    | some b' =>
      simp only [ht] at h
      simp only [List.cons_append,session,ht,ih h,List.append_assoc]

/-- The book holds under each name what was last saved under it. -/
theorem bookAfter_find {turns : List Turn} (h : bookAfter nodeId book turns = some book')
    (name : String) :
    book'.find name = (lastSaved nodeId turns name).or (book.find name) := by
  induction turns generalizing book with
  | nil =>
    cases h
    rfl
  | cons t turns ih =>
    simp only [bookAfter] at h
    cases ht : (turn nodeId book t).2 with
    | none => simp [ht] at h
    | some b =>
      simp only [ht] at h
      rw [ih h,turn_book ht name]
      unfold lastSaved
      cases hs : saves nodeId t with
      | none => simp [hs]
      | some e =>
        have hone : Option.filter (fun e => decide (e.name = name)) (some e) =
            [e].find? (fun e => decide (e.name = name)) := by
          by_cases hn : e.name = name <;> simp [Option.filter,hn]
        rw [List.filterMap_cons_some hs,List.reverse_cons,List.find?_append,Option.or_assoc,hone]

/-- Every round that was begun was begun with a book. -/
theorem mem_session {turns : List Turn} {c : Contact} {m : Bytes}
    (h : (c,m) ∈ sendsOf (session nodeId book turns)) : ∃ pre t post b, turns = pre ++ t :: post ∧
      bookAfter nodeId book pre = some b ∧ (c,m) ∈ sendsOf (turn nodeId b t).1 := by
  induction turns generalizing book with
  | nil => cases h
  | cons t turns ih =>
    by_cases hhere : (c,m) ∈ sendsOf (turn nodeId book t).1
    · exact ⟨[],t,turns,book,rfl,rfl,hhere⟩
    · cases ht : (turn nodeId book t).2 with
      | none =>
        simp only [session,ht,sendsOf_append,List.mem_append] at h
        rcases h with h | h
        · exact absurd h hhere
        · cases h
      | some b =>
        simp only [session,ht,sendsOf_append,List.mem_append] at h
        obtain ⟨pre,t',post,b',rfl,hb,hmem⟩ := ih (h.resolve_left hhere)
        exact ⟨t :: pre,t',post,b',rfl,by simpa [bookAfter,ht] using hb,hmem⟩

/-- Whatever is typed, the console sends nothing but the message on a line, and to
nobody but whom the head of that line names: the contact that was last saved under it,
or, if there is none, the address and the key that stand there. -/
theorem sends_are_addressed {turns : List Turn} {c : Contact} {m : Bytes}
    (h : .send c m ∈ session nodeId Table.empty turns) :
    ∃ pre t post s head message, turns = pre ++ t :: post ∧ Reads t s ∧
      strip s.toList = head ++ [':',' '] ++ message ∧ m = utf8 (String.ofList message) ∧
      ((lastSaved nodeId pre (String.ofList (strip head))).map Entry.contact = some c ∨
        lastSaved nodeId pre (String.ofList (strip head)) = none ∧
          ∃ addrStr encHex, strip head = addrStr ++ [' '] ++ encHex ∧
            contactAt nodeId addrStr (strip encHex) = .ok c) := by
  have hmem : (c,m) ∈ sendsOf (session nodeId Table.empty turns) :=
    List.mem_filterMap.mpr ⟨_,h,rfl⟩
  obtain ⟨pre,t,post,b,rfl,hb,hturn⟩ := mem_session hmem
  obtain ⟨s,hs,head,message,hsplit,hto,rfl⟩ := turn_sends hturn
  refine ⟨pre,t,post,s,head,message,rfl,hs,splitOnce_some hsplit,rfl,?_⟩
  have hfind := bookAfter_find hb (String.ofList (strip head))
  rw [Table.find_empty,Option.or_none] at hfind
  unfold addressee at hto
  rw [hfind] at hto
  cases hlast : lastSaved nodeId pre (String.ofList (strip head)) with
  | some e =>
    rw [hlast] at hto
    exact .inl (congrArg some (Except.ok.inj hto))
  | none =>
    rw [hlast] at hto
    refine .inr ⟨rfl,?_⟩
    cases hsp : splitOnce [' '] (strip head) with
    | none =>
      rw [hsp] at hto
      cases hto
    | some p =>
      obtain ⟨addrStr,encHex⟩ := p
      rw [hsp] at hto
      exact ⟨addrStr,encHex,splitOnce_some hsp,hto⟩

theorem lastSaved_append (nodeId : String) (pre ts : List Turn) (name : String) :
    lastSaved nodeId (pre ++ ts) name =
      (lastSaved nodeId ts name).or (lastSaved nodeId pre name) := by
  simp only [lastSaved,List.filterMap_append,List.reverse_append,List.find?_append]

/-- The ids can be typed as one word, and be told apart. -/
structure Contact.Typable (c : Contact) : Prop where
  cell : '@' ∉ c.cellId.toList
  unspaced : ∀ x ∈ (c.cellId ++ "@" ++ c.nodeId).toList, isSpace x = false

/-- An `/add` line, with any white space around and between its words. -/
def AddLine (w : List Char) (c : Contact) (line : List Char) : Prop :=
  ∃ a s1 s2 s3 b, Spaces a ∧ Spaces s1 ∧ Spaces s2 ∧ Spaces s3 ∧ Spaces b ∧ s2 ≠ [] ∧ s3 ≠ [] ∧
    line = a ++ "/add ".toList ++ s1 ++ w ++ s2 ++ (c.cellId ++ "@" ++ c.nodeId).toList ++ s3 ++
      (hex c.encPub).toList ++ b

/-- A line with a message for an alias; white space in front belongs to the message,
at the end it does not. -/
def MessageLine (w m line : List Char) : Prop :=
  (∃ rest x, m = rest ++ [x] ∧ isSpace x = false) ∧
    ∃ a b, Spaces a ∧ Spaces b ∧ line = a ++ w ++ [':',' '] ++ m ++ b

theorem word_hex {b : Bytes} (h : b.length = 32) : Word (hex b).toList := by
  refine ⟨fun hnil => ?_,fun x hx => (mem_hex hx).1⟩
  have hl := length_hex b
  simp only [hnil,List.length_nil] at hl
  omega

theorem contactAt_typed {c : Contact} (hc : c.Typable) (nodeId : String) :
    contactAt nodeId (c.cellId ++ "@" ++ c.nodeId).toList (hex c.encPub).toList = .ok c := by
  have hkey : readKey (hex c.encPub).toList = .ok ⟨c.encPub,c.keyLength⟩ := by
    unfold readKey
    rw [fromHex_hex]
    exact dif_pos c.keyLength
  unfold contactAt splitAddr
  rw [hkey,String.ofList_toList,splitAddr_join hc.cell]
  rfl

theorem words_three {s1 w s2 w2 s3 w3 : List Char} (h1 : Spaces s1) (hw : Word w) (h2 : Spaces s2)
    (hw2 : Word w2) (h3 : Spaces s3) (hw3 : Word w3) (hne2 : s2 ≠ []) (hne3 : s3 ≠ []) :
    words (s1 ++ w ++ s2 ++ w2 ++ s3 ++ w3) = [w,w2,w3] := by
  have hlast : words (w3 ++ [] ++ []) = w3 :: words [] := words_cons hw3 (by simp [Spaces]) (.inr rfl)
  simp only [List.append_nil] at hlast
  rw [show s1 ++ w ++ s2 ++ w2 ++ s3 ++ w3 = s1 ++ (w ++ s2 ++ (w2 ++ s3 ++ w3)) by simp,
    words_spaces h1,words_cons hw h2 (.inl hne2),words_cons hw2 h3 (.inl hne3),hlast]
  rfl

theorem saves_addLine {w : List Char} {c : Contact} {s : String} (hw : Word w) (hc : c.Typable)
    (hr : Reads t s) (h : AddLine w c s.toList) :
    saves nodeId t = some ⟨String.ofList w,c⟩ := by
  obtain ⟨a,s1,s2,s3,b,ha,h1,h2,h3,hb,hne2,hne3,hline⟩ := h
  have hkey := word_hex c.keyLength
  have haddr : Word (c.cellId ++ "@" ++ c.nodeId).toList := by
    refine ⟨fun hnil => ?_,hc.unspaced⟩
    have hl := congrArg List.length hnil
    simp at hl
  obtain ⟨last,x,hlast,hx⟩ := hkey.trimmed.last
  have htrim : Trimmed ("/add ".toList ++ (s1 ++ w ++ s2 ++ (c.cellId ++ "@" ++ c.nodeId).toList ++
      s3 ++ (hex c.encPub).toList)) := by
    refine ⟨⟨'/',_,rfl,by decide⟩,"/add ".toList ++ (s1 ++ w ++ s2 ++
      (c.cellId ++ "@" ++ c.nodeId).toList ++ s3 ++ last),x,?_,hx⟩
    rw [hlast]
    simp only [List.append_assoc]
  have hstrip := strip_padded ha hb htrim
  rw [show a ++ ("/add ".toList ++ (s1 ++ w ++ s2 ++ (c.cellId ++ "@" ++ c.nodeId).toList ++
    s3 ++ (hex c.encPub).toList)) ++ b = s.toList by rw [hline]; simp only [List.append_assoc]]
    at hstrip
  have hdrop : ∀ rest : List Char, ("/add ".toList ++ rest).drop 5 = rest := fun _ => rfl
  unfold saves
  simp only [hr.read,hstrip]
  rw [if_pos (List.isPrefixOf_iff_prefix.mpr (List.prefix_append _ _)),hdrop,
    words_three h1 hw h2 haddr h3 hkey hne2 hne3]
  simp only [add,contactAt_typed hc]
  rfl

/-- No alias makes a message look like another command. -/
theorem not_command {w : List Char} (hw : Word w) (m : List Char) :
    w ++ [':',' '] ++ m ∉ quitWords ∧ w ++ [':',' '] ++ m ≠ "/contacts".toList ∧
      "/add ".toList.isPrefixOf (w ++ [':',' '] ++ m) = false := by
  have hspace : ' ' ∈ w ++ [':',' '] ++ m := by simp
  refine ⟨fun hq => ?_,fun hq => ?_,?_⟩
  · have hnone : ∀ q ∈ quitWords, ' ' ∉ q := by decide
    exact hnone _ hq hspace
  · rw [hq] at hspace
    revert hspace
    decide
  · -- a blank stands behind the colon first, so never in the fifth place of `/add `
    obtain ⟨hne,hall⟩ := hw
    rcases w with _ | ⟨c0,_ | ⟨c1,_ | ⟨c2,_ | ⟨c3,_ | ⟨c4,w⟩⟩⟩⟩⟩
    · exact absurd rfl hne
    · simp [List.isPrefixOf]
    · simp [List.isPrefixOf]
    · simp [List.isPrefixOf]
    · simp [List.isPrefixOf]
    · have hc4 : ' ' ≠ c4 := by
        rintro rfl
        exact absurd (hall ' ' (by simp)) (by decide)
      simp [List.isPrefixOf,hc4]

theorem sends_messageLine {w m : List Char} {s : String} {e : Entry} (hw : Word w)
    (hr : Reads t s) (h : MessageLine w m s.toList) (hf : book.find (String.ofList w) = some e) :
    sendsOf (turn nodeId book t).1 = [(e.contact,utf8 (String.ofList m))] := by
  obtain ⟨⟨rest,x,rfl,hx⟩,a,b,ha,hb,hline⟩ := h
  obtain ⟨c,w',hc,hsp⟩ := hw.trimmed.head
  have htrim : Trimmed (w ++ [':',' '] ++ (rest ++ [x])) :=
    ⟨⟨c,w' ++ [':',' '] ++ (rest ++ [x]),by rw [hc]; rfl,hsp⟩,
      ⟨w ++ [':',' '] ++ rest,x,by simp only [List.append_assoc],hx⟩⟩
  have hstrip := strip_padded ha hb htrim
  rw [show a ++ (w ++ [':',' '] ++ (rest ++ [x])) ++ b = s.toList by
    rw [hline]; simp only [List.append_assoc]] at hstrip
  have hblank : ' ' ∉ w := fun hmem => absurd (hw.2 ' ' hmem) (by decide)
  have hsplit : splitOnce [':',' '] (w ++ [':',' '] ++ (rest ++ [x])) = some (w,rest ++ [x]) :=
    splitOnce_append [':'] hblank (by decide) (rest ++ [x])
  obtain ⟨hquit,hlist,hadd⟩ := not_command hw (rest ++ [x])
  have hne : strip s.toList ≠ [] := by
    rw [hstrip]
    simp
  rw [turn_reads hr,if_neg hne,sendsOf_echo,hstrip]
  unfold answer
  rw [if_neg hquit,if_neg hlist,hadd,hsplit]
  simp only [Bool.false_eq_true,if_false,addressee,strip_trimmed hw.trimmed,hf]
  exact (sendTo_cases book e.contact (rest ++ [x]) t.sent).1

/-- A line that does not ask to leave, in a round in which nothing is cancelled. -/
def Ordinary (t : Turn) : Prop :=
  t.sent ≠ .cancelled ∧ ∃ s, Reads t s ∧ strip s.toList ∉ quitWords

theorem turn_ordinary (h : Ordinary t) : (turn nodeId book t).2 ≠ none := by
  obtain ⟨hsent,s,hr,hquit⟩ := h
  rw [turn_reads hr]
  split
  · simp
  · rcases (answer_cases nodeId book (strip s.toList) t.sent).2 with
      ⟨hq,_⟩ | ⟨_,_,_,_,hb⟩ | ⟨_,_,_,_,_,hb⟩ | ⟨_,_,hb⟩
    · exact absurd hq hquit
    · simp [hb]
    · rcases hb with hb | ⟨hc,_⟩
      · simp [hb]
      · exact absurd hc hsent
    · simp [hb]

theorem session_over {turns : List Turn} (h : bookAfter nodeId book turns = none)
    (more : List Turn) : session nodeId book (turns ++ more) = session nodeId book turns := by
  induction turns generalizing book with
  | nil => cases h
  | cons t turns ih =>
    simp only [bookAfter] at h
    cases ht : (turn nodeId book t).2 with
    | none => simp only [List.cons_append,session,ht]
    | some b =>
      simp only [ht] at h
      simp only [List.cons_append,session,ht,ih h]

theorem session_closes (nodeId : String) (book : Book) (turns : List Turn) :
    bookAfter nodeId book turns ≠ none ∧ .disconnect ∉ session nodeId book turns ∨
      bookAfter nodeId book turns = none ∧ (∃ t ∈ turns, ¬ Ordinary t) ∧
        ∃ effects, session nodeId book turns = effects ++ [.disconnect] ∧
          .disconnect ∉ effects := by
  induction turns generalizing book with
  | nil => exact .inl ⟨by simp [bookAfter],by simp [session]⟩
  | cons t turns ih =>
    have hquiet := turn_quiet nodeId book t
    simp only [bookAfter,session]
    cases ht : (turn nodeId book t).2 with
    | none =>
      refine .inr ⟨rfl,⟨t,by simp,fun ho => turn_ordinary ho ht⟩,
        (turn nodeId book t).1 ++ [.echo "
disconnecting...
"],?_,?_⟩
      · simp [closing]
      · simp [hquiet]
    | some b =>
      rcases ih b with ⟨hb,hno⟩ | ⟨hb,⟨t',ht',hodd⟩,effects,he,hno⟩
      · exact .inl ⟨hb,by simp [hquiet,hno]⟩
      · refine .inr ⟨hb,⟨t',by simp [ht'],hodd⟩,(turn nodeId book t).1 ++ effects,?_,?_⟩
        · simp only [he,List.append_assoc]
        · simp [hquiet,hno]

end

def sampleContact : Contact := ⟨"c","n",List.replicate 32 0,rfl⟩

def sampleAdd : String := "/add bob c@n " ++ hex (List.replicate 32 0) ++ "\n"

def typed (s : String) : Turn := ⟨true,.line s,.done⟩

def sampleTurns : List Turn := [typed sampleAdd,typed "bob: hi\n",typed "/quit\n"]

theorem sends_are_addressed_sample : ∃ s : String, ∃ head message,
    strip s.toList = head ++ [':',' '] ++ message ∧ utf8 "hi" = utf8 (String.ofList message) := by
  have h : .send sampleContact (utf8 "hi") ∈ session "n" Table.empty sampleTurns := by
    decide +kernel
  obtain ⟨_,_,_,s,head,message,_,_,hline,hm,_⟩ := sends_are_addressed h
  exact ⟨s,head,message,hline,hm⟩

theorem sampleContact_typable : sampleContact.Typable :=
  ⟨by decide,unspaced_of_all (by decide +kernel)⟩

theorem addLine_sampleAdd : AddLine "bob".toList sampleContact sampleAdd.toList := by
  refine ⟨[],[],[' '],[' '],['\n'],?_,?_,?_,?_,?_,by simp,by simp,by decide +kernel⟩ <;> decide

theorem messageLine_sample : MessageLine "bob".toList "hi".toList "bob: hi\n".toList := by
  refine ⟨⟨['h'],'i',by decide,by decide⟩,[],['\n'],?_,?_,by decide +kernel⟩ <;> decide

end Console

end Nevod
