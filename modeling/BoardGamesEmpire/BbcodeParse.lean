import BoardGamesEmpire.JsText

set_option autoImplicit false

/-!
# Reading BBCode

`parse` of `bbcode.ts`: the tags of a text, the elements open while it is read,
and what each of them gathers. The loop is written once over what is gathered:
the parser's nodes, or a record of the tags that made them.
-/
namespace BoardGamesEmpire.Bbcode
open JsText

section Tags

/-- A match of `TAG`: as written, with its groups. -/
structure Tag where
  written : Text
  closing : Bool
  rawName : Text
  rawAttribute : Option Text
deriving DecidableEq

def isLetter (c : Char) : Bool := ('a' ≤ c && c ≤ 'z') || ('A' ≤ c && c ≤ 'Z')

def isAlphanumeric (c : Char) : Bool := isLetter c || ('0' ≤ c && c ≤ '9')

def tagName : Text → Text
  | [] => []
  | c :: s => if c = '*' then ['*'] else if isLetter c then c :: s.takeWhile isAlphanumeric else []

/-- An attribute up to the bracket that ends its tag, and what follows; `inside`
    says that a bracket is open. -/
def tagAttribute : Bool → Text → Option (Text × Text)
  | _, [] => none
  | inside, c :: s =>
    if c = '\n' then none
    else if c = ']' then
      if inside then (tagAttribute false s).map fun cut => (c :: cut.1, cut.2) else some ([], s)
    else if c = '[' then
      if inside then none else (tagAttribute true s).map fun cut => (c :: cut.1, cut.2)
    else (tagAttribute inside s).map fun cut => (c :: cut.1, cut.2)

def matchName (slash s : Text) : Option (Tag × Text) :=
  let name := tagName s
  if name = [] then none
  else
    match s.drop name.length with
    | [] => none
    | c :: rest =>
      if c = ']' then some (⟨'[' :: slash ++ name ++ [']'], decide (slash ≠ []), name, none⟩, rest)
      else if c = '=' then
        (tagAttribute false rest).map fun cut =>
          (⟨'[' :: slash ++ name ++ '=' :: cut.1 ++ [']'], decide (slash ≠ []), name, some cut.1⟩, cut.2)
      else none

/-- `TAG` at the start of a text, and what follows it. -/
def matchTag : Text → Option (Tag × Text)
  | '[' :: '/' :: s => matchName ['/'] s
  | '[' :: s => matchName [] s
  | _ => none

/-- `tags.exec`: the text before the next tag, the tag, and what follows it. -/
def nextTag : Text → Option (Text × Tag × Text)
  | [] => none
  | c :: s =>
    match matchTag (c :: s) with
    | some (tag, rest) => some ([], tag, rest)
    | none => (nextTag s).map fun found => (c :: found.1, found.2)

def closeCode : Text := "[/code]".toList

/-- The search for `[/code]`: what stands before it, it, and what follows. -/
def codeClose : Text → Option (Text × Text × Text)
  | [] => none
  | c :: s =>
    if lowerCase ((c :: s).take closeCode.length) = closeCode then
      some ([], (c :: s).take closeCode.length, (c :: s).drop closeCode.length)
    else (codeClose s).map fun found => (c :: found.1, found.2)

def isLineTerminator (c : Char) : Bool :=
    c = '\n' || c = '\r' || c = Char.ofNat 0x2028 || c = Char.ofNat 0x2029

/-- `replace(/^(["'])(.*)\1$/, '$2')`. -/
def unquote : Text → Text
  | [] => []
  | c :: s =>
    if (c = '"' ∨ c = '\'') ∧ s.getLast? = some c ∧
     s.dropLast.any isLineTerminator = false then s.dropLast else c :: s

def Tag.name (tag : Tag) : Text := lowerCase tag.rawName

def Tag.attribute (tag : Tag) : Option Text := tag.rawAttribute.map fun raw => unquote (trim raw)

def knownTags : List Text := ["b", "i", "u", "s", "url", "quote", "code", "list"].map String.toList

def maxNesting : ℕ := 32

def listName : Text := "list".toList

def codeName : Text := "code".toList

end Tags

section Loop

variable {β : Type}

/-- What an open element gathers: texts, items, the closing tags of items, code, and
    what the elements inside it gathered, when one is closed and when one is left. -/
structure Builder (β : Type) where
  empty : β
  text : β → Text → β
  item : β → Text → β
  closeItem : β → Text → β
  code : β → (full : Bool) → (attr : Option Text) → (opening content closing : Text) → β
  close : β → (name : Text) → (attr : Option Text) → (opening : Text) → β → (closing : Text) → β
  leave : β → (name opening : Text) → β → β

structure OpenElement (β : Type) where
  name : Text
  attr : Option Text
  children : β
  openingTag : Text
  tooDeep : List (Text × ℕ)

structure Stack (β : Type) where
  root : OpenElement β
  opened : List (OpenElement β)

def Stack.top (stack : Stack β) : OpenElement β := stack.opened.head?.getD stack.root

def Stack.mapTop (f : OpenElement β → OpenElement β) : Stack β → Stack β
  | ⟨root, []⟩ => ⟨f root, []⟩
  | ⟨root, element :: below⟩ => ⟨root, f element :: below⟩

def Stack.gather (stack : Stack β) (f : β → β) : Stack β :=
  stack.mapTop fun element => { element with children := f element.children }

def Stack.setTooDeep (stack : Stack β) (name : Text) (count : ℕ) : Stack β :=
  stack.mapTop fun element => { element with tooDeep := element.tooDeep ++ [(name, count)] }

def Stack.full (stack : Stack β) : Bool := decide (maxNesting < stack.opened.length + 1)

variable (b : Builder β)

def leaveUnclosed : Stack β → Stack β
  | ⟨root, []⟩ => ⟨root, []⟩
  | ⟨root, element :: below⟩ =>
    (Stack.mk root below).gather fun children => b.leave children element.name element.openingTag
     element.children

def leaveAll : ℕ → Stack β → Stack β
  | 0, stack => stack
  | n + 1, stack => leaveAll n (leaveUnclosed b stack)

def closeTop (closing : Text) : Stack β → Stack β
  | ⟨root, []⟩ => ⟨root, []⟩
  | ⟨root, element :: below⟩ =>
    (Stack.mk root below).gather fun children =>
      b.close children element.name element.attr element.openingTag element.children closing

def openDepth (stack : Stack β) (name : Text) : Option ℕ :=
    stack.opened.findIdx? fun element => element.name = name

def waiting (stack : Stack β) (name : Text) : ℕ := (mapGet stack.top.tooDeep name).getD 0

def handleItem (tag : Tag) (stack : Stack β) : Stack β :=
  if stack.top.name ≠ listName then stack.gather (b.text · tag.written)
  else if tag.closing = false then stack.gather (b.item · tag.written)
  else stack.gather (b.closeItem · tag.written)

def handleOpening (tag : Tag) (stack : Stack β) : Stack β :=
  if stack.full then (stack.gather (b.text · tag.written)).setTooDeep tag.name (waiting stack tag.name + 1)
  else ⟨stack.root, ⟨tag.name, tag.attribute, b.empty, tag.written, []⟩ :: stack.opened⟩

def handleClosing (tag : Tag) (stack : Stack β) : Stack β :=
  if 0 < waiting stack tag.name then (stack.setTooDeep tag.name (waiting stack tag.name - 1)).gather
   (b.text · tag.written)
  else
    match openDepth stack tag.name with
    | none => stack.gather (b.text · tag.written)
    | some above => closeTop b tag.written (leaveAll b above stack)

def handleTag (tag : Tag) (stack : Stack β) : Stack β :=
  if tag.name = ['*'] then handleItem b tag stack
  else if tag.closing = false then handleOpening b tag stack
  else handleClosing b tag stack

/-- The loop from where `index` is; `noCodeCloseFrom` is where a search for
    `[/code]` last found none. -/
def readTags (length : ℕ) : ℕ → Stack β → ℕ → Text → Stack β
  | 0, stack, _, rest => stack.gather (b.text · rest)
  | fuel + 1, stack, noCodeCloseFrom, rest =>
    match nextTag rest with
    | none => stack.gather (b.text · rest)
    | some (before, tag, rest) =>
      let stack := stack.gather (b.text · before)
      if tag.closing = false ∧ tag.name = codeName then
        let index := length - rest.length
        match if index < noCodeCloseFrom then codeClose rest else none with
        | none => readTags length fuel (stack.gather (b.text · tag.written))
         (min noCodeCloseFrom index) rest
        | some (content, closing, rest) =>
          readTags length fuel
           (stack.gather (b.code · stack.full tag.attribute tag.written content closing))
            noCodeCloseFrom rest
      else readTags length fuel (handleTag b tag stack) noCodeCloseFrom rest

def openRoot : Stack β := ⟨⟨[], none, b.empty, [], []⟩, []⟩

def parseWith (source : Text) : β :=
  let stack := readTags b source.length source.length (openRoot b) source.length source
  (leaveAll b stack.opened.length stack).root.children

end Loop

section Nodes

inductive BbNode where
  | element (name : Text) (attr : Option Text) (children : List BbNode)
  | text (value : Text)
  | item (tag : Text)

def append (children : List BbNode) : BbNode → List BbNode
  | .text value =>
    match children.getLast? with
    | some (.text last) => children.dropLast ++ [.text (last ++ value)]
    | _ => if value = [] then children else children ++ [.text value]
  | node => children ++ [node]

def itemText : BbNode → BbNode
  | .item tag => .text tag
  | .element name attr children => .element name attr children
  | .text value => .text value

def nodeBuilder : Builder (List BbNode) where
  empty := []
  text children value := append children (.text value)
  item children tag := append children (.item tag)
  closeItem children _ := children
  code children _ attr _ content _ := append children (.element codeName attr [.text content])
  close parent name attr _ children _ :=
    if knownTags.contains name then append parent (.element name attr children) else children.foldl
     append parent
  leave parent _ opening children := (children.map itemText).foldl append (append parent (.text opening))

def parse (source : Text) : List BbNode := parseWith nodeBuilder source

end Nodes

end BoardGamesEmpire.Bbcode
