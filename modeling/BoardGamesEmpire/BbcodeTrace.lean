import BoardGamesEmpire.BbcodeParse

set_option autoImplicit false

/-!
# What the reader of BBCode keeps

The loop run over a record of the tags it matched and of the elements it left
open. The source is this record written out again, and the parser's nodes are
the record with the matched tags taken away.
-/
namespace BoardGamesEmpire.Bbcode
open JsText

section Records

inductive Piece where
  | text (value : Text)
  | item (tag : Text)
  | closeItem (tag : Text)
  | code (full : Bool) (attr : Option Text) (opening content closing : Text)
  | pair (name : Text) (attr : Option Text) (opening : Text) (inner : List Piece) (closing : Text)
  | unclosed (name opening : Text) (inner : List Piece)

def pieceBuilder : Builder (List Piece) where
  empty := []
  text pieces value := pieces ++ [.text value]
  item pieces tag := pieces ++ [.item tag]
  closeItem pieces tag := pieces ++ [.closeItem tag]
  code pieces full attr opening content closing := pieces ++ [.code full attr opening content closing]
  close pieces name attr opening inner closing := pieces ++ [.pair name attr opening inner closing]
  leave pieces name opening inner := pieces ++ [.unclosed name opening inner]

def trace (source : Text) : List Piece := parseWith pieceBuilder source

section Folds

variable {β : Type}

mutual

def Builder.gather (b : Builder β) (children : β) : Piece → β
  | .text value => b.text children value
  | .item tag => b.item children tag
  | .closeItem tag => b.closeItem children tag
  | .code full attr opening content closing => b.code children full attr opening content closing
  | .pair name attr opening inner closing => b.close children name attr opening
   (b.gatherAll b.empty inner) closing
  | .unclosed name opening inner => b.leave children name opening (b.gatherAll b.empty inner)
termination_by structural piece => piece

def Builder.gatherAll (b : Builder β) (children : β) : List Piece → β
  | [] => children
  | piece :: pieces => b.gatherAll (b.gather children piece) pieces
termination_by structural pieces => pieces

end

variable (b : Builder β)

def Builder.gathered (pieces : List Piece) : β := b.gatherAll b.empty pieces

theorem gatherAll_append (children : β) (pieces more : List Piece) :
  b.gatherAll children (pieces ++ more) = b.gatherAll (b.gatherAll children pieces) more := by
 induction pieces generalizing children with
 | nil => rfl
 | cons piece pieces ih => exact ih _

theorem gathered_concat (pieces : List Piece) (piece : Piece) :
  b.gathered (pieces ++ [piece]) = b.gather (b.gathered pieces) piece :=
 gatherAll_append b b.empty pieces [piece]

def OpenElement.map {β γ : Type} (f : β → γ) (element : OpenElement β) : OpenElement γ :=
  ⟨element.name, element.attr, f element.children, element.openingTag, element.tooDeep⟩

def Stack.map {β γ : Type} (f : β → γ) (stack : Stack β) :
    Stack γ := ⟨stack.root.map f, stack.opened.map (OpenElement.map f)⟩

end Folds

end Records

section Runs

variable {β : Type} (b : Builder β)

variable {γ : Type}

theorem map_gather {f : γ → β} (g : γ → γ) (g' : β → β) (h : ∀ x, f (g x) = g' (f x))
  (stack : Stack γ) :
  (stack.gather g).map f = (stack.map f).gather g' := by
 obtain ⟨root, opened⟩ := stack
 cases opened with
 | nil => simp [Stack.gather, Stack.mapTop, Stack.map, OpenElement.map, h]
 | cons element below => simp [Stack.gather, Stack.mapTop, Stack.map, OpenElement.map, h]

theorem map_top (f : γ → β) (stack : Stack γ) : (stack.map f).top = stack.top.map f := by
 obtain ⟨root, opened⟩ := stack
 cases opened <;> rfl

theorem map_setTooDeep (f : γ → β) (stack : Stack γ) (name : Text) (count : ℕ) :
  (stack.setTooDeep name count).map f = (stack.map f).setTooDeep name count := by
 obtain ⟨root, opened⟩ := stack
 cases opened <;> rfl

theorem map_full (f : γ → β) (stack : Stack γ) : (stack.map f).full = stack.full := by
 simp [Stack.full, Stack.map]

theorem map_waiting (f : γ → β) (stack : Stack γ) (name : Text) :
  waiting (stack.map f) name = waiting stack name := by
 rw [waiting, map_top]
 rfl

theorem map_openDepth (f : γ → β) (stack : Stack γ) (name : Text) :
  openDepth (stack.map f) name = openDepth stack name := by
 rw [openDepth, Stack.map, List.findIdx?_map]
 rfl

theorem map_leaveUnclosed (stack : Stack (List Piece)) :
  (leaveUnclosed pieceBuilder stack).map b.gathered = leaveUnclosed b (stack.map b.gathered) := by
 obtain ⟨root, opened⟩ := stack
 cases opened with
 | nil => rfl
 | cons element below =>
  have hleave : ∀ x, b.gathered (pieceBuilder.leave x element.name element.openingTag element.children) =
    b.leave (b.gathered x) element.name element.openingTag (b.gathered element.children) := fun x =>
     gathered_concat b x _
  exact map_gather _ (fun x => b.leave x element.name element.openingTag
   (b.gathered element.children)) hleave ⟨root, below⟩

theorem map_leaveAll (n : ℕ) (stack : Stack (List Piece)) :
  (leaveAll pieceBuilder n stack).map b.gathered = leaveAll b n (stack.map b.gathered) := by
 induction n generalizing stack with
 | zero => rfl
 | succ n ih => rw [leaveAll, ih, map_leaveUnclosed, leaveAll]

theorem map_closeTop (closing : Text) (stack : Stack (List Piece)) :
  (closeTop pieceBuilder closing stack).map b.gathered = closeTop b closing (stack.map b.gathered) := by
 obtain ⟨root, opened⟩ := stack
 cases opened with
 | nil => rfl
 | cons element below =>
  have hclose : ∀ x, b.gathered
   (pieceBuilder.close x element.name element.attr element.openingTag element.children closing) =
    b.close (b.gathered x) element.name element.attr element.openingTag
     (b.gathered element.children) closing :=
   fun x => gathered_concat b x _
  exact map_gather _ (fun x => b.close x element.name element.attr element.openingTag
   (b.gathered element.children) closing) hclose
   ⟨root, below⟩

theorem map_handleTag (tag : Tag) (stack : Stack (List Piece)) :
  (handleTag pieceBuilder tag stack).map b.gathered = handleTag b tag (stack.map b.gathered) := by
 have htext : ∀ s : Stack (List Piece), (s.gather (pieceBuilder.text · tag.written)).map b.gathered =
   (s.map b.gathered).gather (b.text · tag.written) :=
    fun s => map_gather _ _ (fun x => gathered_concat b x _) s
 unfold handleTag
 split
 · unfold handleItem
   rw [map_top]
   have hname : (stack.top.map b.gathered).name = stack.top.name := rfl
   rw [hname]
   split
   · exact htext stack
   · split
     · exact map_gather _ _ (fun x => gathered_concat b x _) stack
     · exact map_gather _ _ (fun x => gathered_concat b x _) stack
 · split
   · unfold handleOpening
     rw [map_full, map_waiting]
     split
     · rw [map_setTooDeep, htext]
     · rfl
   · unfold handleClosing
     rw [map_waiting, map_openDepth]
     split
     · rw [htext, map_setTooDeep]
     · cases openDepth stack tag.name with
       | none => exact htext stack
       | some above => rw [map_closeTop, map_leaveAll]

theorem map_readTags (length fuel : ℕ) (stack : Stack (List Piece)) (noCodeCloseFrom : ℕ)
  (rest : Text) :
  (readTags pieceBuilder length fuel stack noCodeCloseFrom rest).map b.gathered =
   readTags b length fuel (stack.map b.gathered) noCodeCloseFrom rest := by
 induction fuel generalizing stack noCodeCloseFrom rest with
 | zero => exact map_gather _ _ (fun x => gathered_concat b x _) stack
 | succ fuel ih =>
  rw [readTags, readTags]
  split
  · exact map_gather _ _ (fun x => gathered_concat b x _) stack
  · next before tag rest' hnext =>
    dsimp only
    have hbefore : (stack.gather (pieceBuilder.text · before)).map b.gathered =
     (stack.map b.gathered).gather (b.text · before) :=
     map_gather _ _ (fun x => gathered_concat b x _) stack
    split
    · split
      · have htext : ∀ x, b.gathered (pieceBuilder.text x tag.written) = b.text
         (b.gathered x) tag.written :=
         fun x => gathered_concat b x _
        rw [ih, map_gather _ (b.text · tag.written) htext, hbefore]
      · next content closing rest'' _ =>
        have hcode : ∀ full x,
         b.gathered (pieceBuilder.code x full tag.attribute tag.written content closing) =
          b.code (b.gathered x) full tag.attribute tag.written content closing :=
           fun full x => gathered_concat b x _
        rw [ih, map_gather _ (b.code · _ tag.attribute tag.written content closing) (hcode _),
         ← map_full b.gathered, hbefore]
    · rw [ih, map_handleTag, hbefore]

theorem parseWith_eq (source : Text) : parseWith b source = b.gathered (trace source) := by
 have hread := map_readTags b source.length source.length (openRoot pieceBuilder) source.length source
 have hopened := congrArg (fun stack : Stack β => stack.opened.length) hread
 have hall := map_leaveAll b (readTags pieceBuilder source.length source.length
  (openRoot pieceBuilder) source.length source).opened.length
  (readTags pieceBuilder source.length source.length (openRoot pieceBuilder) source.length source)
 have hlength : (readTags b source.length source.length (openRoot b) source.length source).opened.length =
   (readTags pieceBuilder source.length source.length (openRoot pieceBuilder) source.length
    source).opened.length := by
  have hroot : (openRoot pieceBuilder).map b.gathered = openRoot b := rfl
  rw [hroot] at hopened
  rw [← hopened]
  exact List.length_map _
 have hroot : (openRoot pieceBuilder).map b.gathered = openRoot b := rfl
 rw [hread, hroot] at hall
 rw [trace, parseWith, parseWith, hlength, ← hall]
 rfl

end Runs

end BoardGamesEmpire.Bbcode
