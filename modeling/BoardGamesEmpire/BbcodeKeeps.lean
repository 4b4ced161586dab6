import BoardGamesEmpire.BbcodeRuns

set_option autoImplicit false

/-!
# What BBCode loses

The nodes of a source against its record: what the tags that are not in the tree
may be, where its items are, and how deep its elements.
-/
namespace BoardGamesEmpire.Bbcode
open JsText

section Contents

mutual

def BbNode.contents : BbNode → Text
  | .element _ _ children => contentsAll children
  | .text value => value
  | .item tag => tag
termination_by structural node => node

def contentsAll : List BbNode → Text
  | [] => []
  | node :: nodes => node.contents ++ contentsAll nodes
termination_by structural nodes => nodes

end

mutual

def Piece.kept : Piece → Text
  | .text value => value
  | .item tag => tag
  | .closeItem _ => []
  | .code _ _ _ content _ => content
  | .pair _ _ _ inner _ => keptAll inner
  | .unclosed _ opening inner => opening ++ keptAll inner
termination_by structural piece => piece

def keptAll : List Piece → Text
  | [] => []
  | piece :: pieces => piece.kept ++ keptAll pieces
termination_by structural pieces => pieces

end

theorem contentsAll_append (nodes more : List BbNode) :
  contentsAll (nodes ++ more) = contentsAll nodes ++ contentsAll more := by
 induction nodes with
 | nil => rfl
 | cons node nodes ih => simp [contentsAll, ih]

theorem append_cases (children : List BbNode) (node : BbNode) :
  append children node = children ++ [node] ∨ (node = .text [] ∧ append children node = children) ∨
   ∃ before last value, children = before ++ [.text last] ∧ node = .text value ∧
    append children node = before ++ [.text (last ++ value)] := by
 cases node with
 | element name attr inner => exact .inl rfl
 | item tag => exact .inl rfl
 | text value =>
  rw [append]
  split
  · next last hlast =>
    exact .inr (.inr ⟨children.dropLast, last, value, (List.dropLast_append_getLast? _ hlast).symm,
     rfl, rfl⟩)
  · split
    · next hvalue => exact .inr (.inl ⟨by rw [hvalue], rfl⟩)
    · exact .inl rfl

theorem contentsAll_append_node (children : List BbNode) (node : BbNode) :
  contentsAll (append children node) = contentsAll children ++ node.contents := by
 obtain h | ⟨rfl, h⟩ | ⟨before, last, value, rfl, rfl, h⟩ := append_cases children node
 · simp [h, contentsAll_append, contentsAll]
 · simp [h, BbNode.contents]
 · simp [h, contentsAll_append, contentsAll, BbNode.contents]

theorem contentsAll_foldl (children nodes : List BbNode) :
  contentsAll (nodes.foldl append children) = contentsAll children ++ contentsAll nodes := by
 induction nodes generalizing children with
 | nil => simp [contentsAll]
 | cons node nodes ih => simp [ih, contentsAll_append_node, contentsAll]

theorem contents_itemText (node : BbNode) : (itemText node).contents = node.contents := by
 cases node <;> rfl

theorem contentsAll_itemText (nodes : List BbNode) :
  contentsAll (nodes.map itemText) = contentsAll nodes := by
 induction nodes with
 | nil => rfl
 | cons node nodes ih => simp [contentsAll, contents_itemText, ih]

mutual

theorem contents_gather (children : List BbNode) : ∀ piece : Piece,
  contentsAll (nodeBuilder.gather children piece) = contentsAll children ++ piece.kept
 | .text value => contentsAll_append_node children (.text value)
 | .item tag => contentsAll_append_node children (.item tag)
 | .closeItem _ => (List.append_nil _).symm
 | .code _ attr _ content _ => by
  refine (contentsAll_append_node children (.element codeName attr [.text content])).trans ?_
  simp [BbNode.contents, contentsAll, Piece.kept]
 | .pair name attr opening inner closing => by
  have hinner := contents_gatherAll [] inner
  have hgather : nodeBuilder.gather children (.pair name attr opening inner closing) =
    if knownTags.contains name then append children (.element name attr (nodeBuilder.gatherAll [] inner))
    else (nodeBuilder.gatherAll [] inner).foldl append children := rfl
  rw [hgather, Piece.kept]
  split
  · rw [contentsAll_append_node, BbNode.contents, hinner]
    rfl
  · rw [contentsAll_foldl, hinner]
    rfl
 | .unclosed _ opening inner => by
  have hinner := contents_gatherAll [] inner
  refine (contentsAll_foldl _ _).trans ?_
  rw [contentsAll_itemText, contentsAll_append_node, BbNode.contents, Piece.kept, ← List.append_assoc]
  exact congrArg _ hinner

theorem contents_gatherAll (children : List BbNode) : ∀ pieces : List Piece,
  contentsAll (nodeBuilder.gatherAll children pieces) = contentsAll children ++ keptAll pieces
 | [] => (List.append_nil _).symm
 | piece :: pieces => by
  rw [Builder.gatherAll, contents_gatherAll (nodeBuilder.gather children piece) pieces,
   contents_gather children piece, keptAll,
   List.append_assoc]

end

end Contents

section Heights

mutual

def BbNode.height : BbNode → ℕ
  | .element _ _ children => heightAll children + 1
  | .text _ => 0
  | .item _ => 0
termination_by structural node => node

def heightAll : List BbNode → ℕ
  | [] => 0
  | node :: nodes => max node.height (heightAll nodes)
termination_by structural nodes => nodes

end

mutual

def Piece.height : Piece → ℕ
  | .text _ => 0
  | .item _ => 0
  | .closeItem _ => 0
  | .code _ _ _ _ _ => 1
  | .pair name _ _ inner _ => if knownTags.contains name then pieceHeights inner +
   1 else pieceHeights inner
  | .unclosed _ _ inner => pieceHeights inner
termination_by structural piece => piece

def pieceHeights : List Piece → ℕ
  | [] => 0
  | piece :: pieces => max piece.height (pieceHeights pieces)
termination_by structural pieces => pieces

end

theorem heightAll_append (nodes more : List BbNode) :
  heightAll (nodes ++ more) = max (heightAll nodes) (heightAll more) := by
 induction nodes with
 | nil => simp [heightAll]
 | cons node nodes ih => simp [heightAll, ih, max_assoc]

theorem heightAll_append_node (children : List BbNode) (node : BbNode) :
  heightAll (append children node) = max (heightAll children) node.height := by
 obtain h | ⟨rfl, h⟩ | ⟨before, last, value, rfl, rfl, h⟩ := append_cases children node
 · simp [h, heightAll_append, heightAll]
 · simp [h, BbNode.height]
 · simp [h, heightAll_append, heightAll, BbNode.height]

theorem heightAll_foldl (children nodes : List BbNode) :
  heightAll (nodes.foldl append children) = max (heightAll children) (heightAll nodes) := by
 induction nodes generalizing children with
 | nil => simp [heightAll]
 | cons node nodes ih => simp [ih, heightAll_append_node, heightAll, max_assoc]

theorem heightAll_itemText (nodes : List BbNode) :
  heightAll (nodes.map itemText) = heightAll nodes := by
 induction nodes with
 | nil => rfl
 | cons node nodes ih =>
  have hnode : (itemText node).height = node.height := by cases node <;> rfl
  simp [heightAll, hnode, ih]

mutual

theorem height_gather (children : List BbNode) : ∀ piece : Piece,
  heightAll (nodeBuilder.gather children piece) = max (heightAll children) piece.height
 | .text value => heightAll_append_node children (.text value)
 | .item tag => heightAll_append_node children (.item tag)
 | .closeItem _ => (Nat.max_zero _).symm
 | .code _ attr _ content _ => heightAll_append_node children (.element codeName attr [.text content])
 | .pair name attr opening inner closing => by
  have hinner := height_gatherAll [] inner
  have hgather : nodeBuilder.gather children (.pair name attr opening inner closing) =
    if knownTags.contains name then append children (.element name attr (nodeBuilder.gatherAll [] inner))
    else (nodeBuilder.gatherAll [] inner).foldl append children := rfl
  rw [hgather, Piece.height]
  split
  · rw [heightAll_append_node, BbNode.height, hinner]
    simp [heightAll]
  · rw [heightAll_foldl, hinner]
    simp [heightAll]
 | .unclosed _ opening inner => by
  have hinner := height_gatherAll [] inner
  refine (heightAll_foldl _ _).trans ?_
  rw [heightAll_itemText, heightAll_append_node, BbNode.height, Piece.height, Nat.max_zero]
  refine congrArg _ (hinner.trans ?_)
  simp [heightAll]

theorem height_gatherAll (children : List BbNode) : ∀ pieces : List Piece,
  heightAll (nodeBuilder.gatherAll children pieces) = max (heightAll children) (pieceHeights pieces)
 | [] => (Nat.max_zero _).symm
 | piece :: pieces => by
  rw [Builder.gatherAll, height_gatherAll (nodeBuilder.gather children piece) pieces,
   height_gather children piece, pieceHeights,
   max_assoc]

end

theorem height_parse (source : Text) : heightAll (parse source) = pieceHeights (trace source) := by
 rw [parse, parseWith_eq, Builder.gathered, height_gatherAll]
 exact Nat.zero_max _

mutual

/-- No code was read with the stack full, inside elements all of which are in the tree. -/
def Piece.NoDeepCode : Piece → Prop
  | .text _ => True
  | .item _ => True
  | .closeItem _ => True
  | .code full _ _ _ _ => full = false
  | .pair name _ _ inner _ => knownTags.contains name = true → NoDeepCode inner
  | .unclosed _ _ _ => True
termination_by structural piece => piece

def NoDeepCode : List Piece → Prop
  | [] => True
  | piece :: pieces => piece.NoDeepCode ∧ NoDeepCode pieces
termination_by structural pieces => pieces

end

mutual

theorem placed_height (level : ℕ) (inList : Prop) (hlevel : level ≤ maxNesting) :
  ∀ piece : Piece, piece.Placed level inList →
  piece.height + level ≤ maxNesting + 1 ∧ (piece.height + level ≤ maxNesting ↔ piece.NoDeepCode)
 | .text _, _ => by simp [Piece.height, Piece.NoDeepCode, hlevel]; omega
 | .item _, _ => by simp [Piece.height, Piece.NoDeepCode, hlevel]; omega
 | .closeItem _, _ => by simp [Piece.height, Piece.NoDeepCode, hlevel]; omega
 | .code full _ _ _ _, hplaced => by
  have hfull : full = true ↔ maxNesting ≤ level := hplaced.1
  refine ⟨by simp only [Piece.height]; omega, ?_⟩
  rw [Piece.height, Piece.NoDeepCode, ← Bool.not_eq_true, hfull]
  omega
 | .pair name _ _ inner _, hplaced => by
  obtain ⟨hlt, -, -, hinner⟩ := hplaced
  obtain ⟨hmost, hiff⟩ := placedAll_height (level + 1) (name = listName) hlt inner hinner
  rw [Piece.height, Piece.NoDeepCode]
  split
  · next hknown =>
    refine ⟨by omega, ?_⟩
    rw [show pieceHeights inner + 1 + level = pieceHeights inner + (level + 1) by omega, hiff]
    exact ⟨fun h _ => h, fun h => h hknown⟩
  · next hknown => exact ⟨by omega, fun _ h => absurd h hknown, fun _ => by omega⟩
 | .unclosed name _ inner, hplaced => by
  obtain ⟨hlt, -, hinner⟩ := hplaced
  have hmost := (placedAll_height (level + 1) (name = listName) hlt inner hinner).1
  rw [Piece.height, Piece.NoDeepCode]
  exact ⟨by omega, fun _ => trivial, fun _ => by omega⟩

theorem placedAll_height (level : ℕ) (inList : Prop) (hlevel : level ≤ maxNesting) :
  ∀ pieces : List Piece,
  PlacedAll level inList pieces →
  pieceHeights pieces + level ≤ maxNesting + 1 ∧
   (pieceHeights pieces + level ≤ maxNesting ↔ NoDeepCode pieces)
 | [], _ => by simp [pieceHeights, NoDeepCode, hlevel]; omega
 | piece :: pieces, hplaced => by
  obtain ⟨hmost, hiff⟩ := placed_height level inList hlevel piece hplaced.1
  obtain ⟨hmosts, hiffs⟩ := placedAll_height level inList hlevel pieces hplaced.2
  rw [pieceHeights, NoDeepCode, ← hiff, ← hiffs]
  omega

end

end Heights

section Items

mutual

def BbNode.ItemsInLists (inList : Prop) : BbNode → Prop
  | .element name _ children => ItemsInLists (name = listName) children
  | .text _ => True
  | .item _ => inList
termination_by structural node => node

def ItemsInLists (inList : Prop) : List BbNode → Prop
  | [] => True
  | node :: nodes => node.ItemsInLists inList ∧ ItemsInLists inList nodes
termination_by structural nodes => nodes

end

theorem itemsInLists_append (inList : Prop) (nodes more : List BbNode) :
  ItemsInLists inList (nodes ++ more) ↔ ItemsInLists inList nodes ∧ ItemsInLists inList more := by
 induction nodes with
 | nil => simp [ItemsInLists]
 | cons node nodes ih => simp [ItemsInLists, ih, and_assoc]

theorem itemsInLists_append_node (inList : Prop) (children : List BbNode) (node : BbNode) :
  ItemsInLists inList (append children node) ↔ ItemsInLists inList children ∧
   node.ItemsInLists inList := by
 obtain h | ⟨rfl, h⟩ | ⟨before, last, value, rfl, rfl, h⟩ := append_cases children node
 · simp [h, itemsInLists_append, ItemsInLists]
 · simp [h, BbNode.ItemsInLists]
 · simp [h, itemsInLists_append, ItemsInLists, BbNode.ItemsInLists]

theorem itemsInLists_foldl (inList : Prop) (children nodes : List BbNode) :
  ItemsInLists inList (nodes.foldl append children) ↔ ItemsInLists inList children ∧
   ItemsInLists inList nodes := by
 induction nodes generalizing children with
 | nil => simp [ItemsInLists]
 | cons node nodes ih => simp [ih, itemsInLists_append_node, ItemsInLists, and_assoc]

theorem itemsInLists_itemText (inList inList' : Prop) (nodes : List BbNode)
  (h : ItemsInLists inList nodes) :
  ItemsInLists inList' (nodes.map itemText) := by
 induction nodes with
 | nil => trivial
 | cons node nodes ih =>
  refine ⟨?_, ih h.2⟩
  cases node with
  | element name attr children => exact h.1
  | text value => trivial
  | item tag => trivial

theorem itemsInLists_mono (inList inList' : Prop) (himp : inList → inList') (nodes : List BbNode)
  (h : ItemsInLists inList nodes) :
  ItemsInLists inList' nodes := by
 induction nodes with
 | nil => trivial
 | cons node nodes ih =>
  refine ⟨?_, ih h.2⟩
  cases node with
  | element name attr children => exact h.1
  | text value => trivial
  | item tag => exact himp h.1

theorem known_list : knownTags.contains listName = true := by decide

mutual

theorem items_gather (level : ℕ) (inList : Prop) (children : List BbNode)
  (h : ItemsInLists inList children) : ∀ piece : Piece,
  piece.Placed level inList → ItemsInLists inList (nodeBuilder.gather children piece)
 | .text value, _ => (itemsInLists_append_node inList children (.text value)).mpr ⟨h, trivial⟩
 | .item tag, hplaced => (itemsInLists_append_node inList children (.item tag)).mpr ⟨h, hplaced.1⟩
 | .closeItem _, _ => h
 | .code _ attr _ content _, _ =>
  (itemsInLists_append_node inList children (.element codeName attr [.text content])).mpr
   ⟨h, trivial, trivial⟩
 | .pair name attr opening inner closing, hplaced => by
  have hinner := items_gatherAll (level + 1) (name = listName) [] trivial inner hplaced.2.2.2
  have hgather : nodeBuilder.gather children (.pair name attr opening inner closing) =
    if knownTags.contains name then append children (.element name attr (nodeBuilder.gatherAll [] inner))
    else (nodeBuilder.gatherAll [] inner).foldl append children := rfl
  rw [hgather]
  split
  · exact (itemsInLists_append_node _ _ _).mpr ⟨h, hinner⟩
  · next hknown =>
    have hlist : name = listName → inList := fun hname => absurd (hname ▸ known_list) hknown
    exact (itemsInLists_foldl _ _ _).mpr ⟨h, itemsInLists_mono _ _ hlist _ hinner⟩
 | .unclosed name opening inner, hplaced => by
  have hinner := items_gatherAll (level + 1) (name = listName) [] trivial inner hplaced.2.2
  have hopening : ItemsInLists inList (append children (.text opening)) :=
   (itemsInLists_append_node _ _ _).mpr ⟨h, trivial⟩
  exact (itemsInLists_foldl _ _ _).mpr ⟨hopening, itemsInLists_itemText _ _ _ hinner⟩

theorem items_gatherAll (level : ℕ) (inList : Prop) (children : List BbNode)
  (h : ItemsInLists inList children) :
  ∀ pieces : List Piece, PlacedAll level inList pieces →
   ItemsInLists inList (nodeBuilder.gatherAll children pieces)
 | [], _ => h
 | piece :: pieces, hplaced =>
  items_gatherAll level inList (nodeBuilder.gather children piece)
   (items_gather level inList children h piece hplaced.1) pieces hplaced.2

end

theorem items_parse (source : Text) : ItemsInLists False (parse source) := by
 rw [parse, parseWith_eq]
 exact items_gatherAll 0 False [] trivial (trace source) (trace_keeps source).2

end Items

section Insertions

def inElement (name : Text) (inList : Prop) : Prop :=
    if knownTags.contains name then name = listName else inList

mutual

/-- The tags of a piece that are not in the tree are those of pairs, and ends of
    items directly in a list element. -/
def Piece.Inserts (inList : Prop) : Piece → Prop
  | .text _ => True
  | .item _ => True
  | .closeItem tag => inList ∧ IsTag tag true ['*']
  | .code _ _ opening _ closing => IsTag opening false codeName ∧ lowerCase closing = closeCode
  | .pair name _ opening inner closing => IsTag opening false name ∧ IsTag closing true name ∧
   InsertsAll (inElement name inList) inner
  | .unclosed _ _ inner => InsertsAll inList inner
termination_by structural piece => piece

def InsertsAll (inList : Prop) : List Piece → Prop
  | [] => True
  | piece :: pieces => piece.Inserts inList ∧ InsertsAll inList pieces
termination_by structural pieces => pieces

end

def Piece.isItemEnd : Piece → Bool
  | .closeItem _ => true
  | _ => false

mutual

/-- A list left unclosed in which the end of an item was read is left directly in
    a list element. -/
def Piece.LeftInLists (inList : Prop) : Piece → Prop
  | .text _ => True
  | .item _ => True
  | .closeItem _ => True
  | .code _ _ _ _ _ => True
  | .pair name _ _ inner _ => LeftInLists (inElement name inList) inner
  | .unclosed _ _ inner => (inner.any Piece.isItemEnd = true → inList) ∧ LeftInLists inList inner
termination_by structural piece => piece

def LeftInLists (inList : Prop) : List Piece → Prop
  | [] => True
  | piece :: pieces => piece.LeftInLists inList ∧ LeftInLists inList pieces
termination_by structural pieces => pieces

end

theorem itemEnd_placed (level : ℕ) (inList : Prop) (pieces : List Piece)
  (h : PlacedAll level inList pieces) (hend : pieces.any Piece.isItemEnd = true) : inList := by
 induction pieces with
 | nil => cases hend
 | cons piece pieces ih =>
  rw [List.any_cons, Bool.or_eq_true] at hend
  cases hend with
  | inl hpiece =>
   cases piece with
   | closeItem tag => exact h.1.1
   | _ => cases hpiece
  | inr hpieces => exact ih h.2 hpieces

theorem inElement_list {name : Text} {inList : Prop} (h : name = listName) :
  inElement name inList := by
 rw [inElement, if_pos (h ▸ known_list)]
 exact h

mutual

theorem inserts_iff (level : ℕ) (named inList : Prop) : ∀ piece : Piece, piece.Placed level named →
  (piece.Inserts inList ↔ (piece.isItemEnd = true → inList) ∧ piece.LeftInLists inList)
 | .text _, _ => by simp [Piece.Inserts, Piece.isItemEnd, Piece.LeftInLists]
 | .item _, _ => by simp [Piece.Inserts, Piece.isItemEnd, Piece.LeftInLists]
 | .closeItem _, hplaced => by simp [Piece.Inserts, Piece.isItemEnd, Piece.LeftInLists, hplaced.2]
 | .code _ _ _ _ _, hplaced => by simp [Piece.Inserts, Piece.isItemEnd, Piece.LeftInLists, hplaced.2.1, hplaced.2.2]
 | .pair name _ _ inner _, hplaced => by
  obtain ⟨-, hopening, hclosing, hinner⟩ := hplaced
  have hends : inner.any Piece.isItemEnd = true → inElement name inList := fun hend =>
   inElement_list (itemEnd_placed (level + 1) (name = listName) inner hinner hend)
  have hiff := insertsAll_iff (level + 1) (name = listName) (inElement name inList) inner hinner
  rw [Piece.Inserts, Piece.LeftInLists, hiff, and_iff_right hends, and_iff_right hclosing,
   and_iff_right hopening]
  exact (and_iff_right nofun).symm
 | .unclosed name _ inner, hplaced => by
  have hiff := insertsAll_iff (level + 1) (name = listName) inList inner hplaced.2.2
  rw [Piece.Inserts, Piece.LeftInLists, hiff]
  simp [Piece.isItemEnd]

theorem insertsAll_iff (level : ℕ) (named inList : Prop) :
  ∀ pieces : List Piece, PlacedAll level named pieces →
  (InsertsAll inList pieces ↔ (pieces.any Piece.isItemEnd = true → inList) ∧ LeftInLists inList pieces)
 | [], _ => by simp [InsertsAll, LeftInLists]
 | piece :: pieces, hplaced => by
  have hpiece := inserts_iff level named inList piece hplaced.1
  have hpieces := insertsAll_iff level named inList pieces hplaced.2
  rw [InsertsAll, LeftInLists, hpiece, hpieces, List.any_cons, Bool.or_eq_true, or_imp]
  exact and_and_and_comm

end

mutual

theorem kept_length (piece : Piece) : piece.kept.length ≤ piece.written.length := by
 cases piece with
 | text value => exact le_rfl
 | item tag => exact le_rfl
 | closeItem tag => exact Nat.zero_le _
 | code full attr opening content closing => simp [Piece.kept, Piece.written]; omega
 | pair name attr opening inner closing =>
  have hinner := keptAll_length inner
  simp [Piece.kept, Piece.written]
  omega
 | unclosed name opening inner =>
  have hinner := keptAll_length inner
  simpa [Piece.kept, Piece.written] using hinner

theorem keptAll_length (pieces : List Piece) :
  (keptAll pieces).length ≤ (writtenAll pieces).length := by
 cases pieces with
 | nil => exact le_rfl
 | cons piece pieces =>
  have hpiece := kept_length piece
  have hpieces := keptAll_length pieces
  simp [keptAll, writtenAll]
  omega

end

mutual

theorem inserts_length (piece : Piece) (h : piece.Inserts False) :
  piece.written.length = piece.kept.length ∨ piece.kept.length + 7 ≤ piece.written.length := by
 cases piece with
 | text value => exact .inl rfl
 | item tag => exact .inl rfl
 | closeItem tag => exact absurd h.1 not_false
 | code full attr opening content closing =>
  have hopening := (isTag_length h.1).1
  have hclosing : closing.length = 7 := by
   have hmap := congrArg List.length h.2
   rw [lowerCase, List.length_map] at hmap
   exact hmap
  refine .inr ?_
  simp [Piece.kept, Piece.written]
  omega
 | pair name attr opening inner closing =>
  have hopening := (isTag_length h.1).1
  have hclosing := (isTag_length h.2.1).2 rfl
  have hinner := keptAll_length inner
  refine .inr ?_
  simp [Piece.kept, Piece.written]
  omega
 | unclosed name opening inner =>
  have hinner := insertsAll_length inner h
  simp [Piece.kept, Piece.written]
  omega

theorem insertsAll_length (pieces : List Piece) (h : InsertsAll False pieces) :
  (writtenAll pieces).length = (keptAll pieces).length ∨
   (keptAll pieces).length + 7 ≤ (writtenAll pieces).length := by
 cases pieces with
 | nil => exact .inl rfl
 | cons piece pieces =>
  have hpiece := inserts_length piece h.1
  have hpieces := insertsAll_length pieces h.2
  simp [keptAll, writtenAll]
  omega

end

end Insertions

section Unclosed

mutual

def Piece.NothingClosed : Piece → Prop
  | .text _ => True
  | .item _ => True
  | .closeItem _ => True
  | .code _ _ _ _ _ => False
  | .pair _ _ _ _ _ => False
  | .unclosed _ _ inner => NothingClosed inner
termination_by structural piece => piece

def NothingClosed : List Piece → Prop
  | [] => True
  | piece :: pieces => piece.NothingClosed ∧ NothingClosed pieces
termination_by structural pieces => pieces

end

def textNodes (value : Text) : List BbNode := if value = [] then [] else [.text value]

theorem append_textNodes (value more : Text) :
  append (textNodes value) (.text more) = textNodes (value ++ more) := by
 cases value with
 | nil => cases more <;> rfl
 | cons c value => rfl

def isPlain : BbNode → Bool
  | .element _ _ _ => false
  | _ => true

theorem foldl_itemText (value : Text) (nodes : List BbNode) (h : nodes.all isPlain = true) :
  (nodes.map itemText).foldl append (textNodes value) = textNodes (value ++ contentsAll nodes) := by
 induction nodes generalizing value with
 | nil => simp [contentsAll]
 | cons node nodes ih =>
  rw [List.all_cons, Bool.and_eq_true] at h
  have hnode : append (textNodes value) (itemText node) = textNodes (value ++ node.contents) := by
   cases node with
   | element name attr children => cases h.1
   | text more => exact append_textNodes value more
   | item tag => exact append_textNodes value tag
  rw [List.map_cons, List.foldl_cons, hnode, ih _ h.2, contentsAll, List.append_assoc]

theorem plain_append_node (children : List BbNode) (node : BbNode)
  (hchildren : children.all isPlain = true) (hnode : isPlain node = true) :
  (append children node).all isPlain = true := by
 obtain h | ⟨rfl, h⟩ | ⟨before, last, value, rfl, rfl, h⟩ := append_cases children node
 · rw [h, List.all_append, hchildren]
   simp [hnode]
 · rw [h, hchildren]
 · rw [h]
   simpa [isPlain] using hchildren

theorem plain_foldl (children nodes : List BbNode) (hchildren : children.all isPlain = true)
  (hnodes : nodes.all isPlain = true) :
  (nodes.foldl append children).all isPlain = true := by
 induction nodes generalizing children with
 | nil => exact hchildren
 | cons node nodes ih =>
  rw [List.all_cons, Bool.and_eq_true] at hnodes
  exact ih _ (plain_append_node children node hchildren hnodes.1) hnodes.2

mutual

theorem plain_gather (children : List BbNode) (hchildren : children.all isPlain = true) :
  ∀ piece : Piece, piece.NothingClosed →
  (nodeBuilder.gather children piece).all isPlain = true
 | .text value, _ => plain_append_node children (.text value) hchildren rfl
 | .item tag, _ => plain_append_node children (.item tag) hchildren rfl
 | .closeItem _, _ => hchildren
 | .code _ _ _ _ _, h => h.elim
 | .pair _ _ _ _ _, h => h.elim
 | .unclosed _ opening inner, h => by
  have hinner := plain_gatherAll [] rfl inner h
  have htexts : ((nodeBuilder.gatherAll [] inner).map itemText).all isPlain = true := by
   rw [List.all_map, List.all_eq_true] at *
   intro node hnode
   have hplain := hinner node hnode
   cases node with
   | element name attr children => cases hplain
   | text value => rfl
   | item tag => rfl
  exact plain_foldl _ _ (plain_append_node children (.text opening) hchildren rfl) htexts

theorem plain_gatherAll (children : List BbNode) (hchildren : children.all isPlain = true) :
  ∀ pieces : List Piece, NothingClosed pieces →
  (nodeBuilder.gatherAll children pieces).all isPlain = true
 | [], _ => hchildren
 | piece :: pieces, h => plain_gatherAll _ (plain_gather children hchildren piece h.1) pieces h.2

end

theorem gatherAll_textNodes (level : ℕ) (value : Text) (pieces : List Piece)
  (hplaced : PlacedAll level False pieces) (h : NothingClosed pieces) :
   nodeBuilder.gatherAll (textNodes value) pieces = textNodes (value ++ keptAll pieces) := by
 induction pieces generalizing value with
 | nil => simp [Builder.gatherAll, keptAll]
 | cons piece pieces ih =>
  have hpiece : nodeBuilder.gather (textNodes value) piece = textNodes (value ++ piece.kept) := by
   cases piece with
   | text more => exact append_textNodes value more
   | item tag => exact absurd hplaced.1.1 not_false
   | closeItem tag => exact absurd hplaced.1.1 not_false
   | code full attr opening content closing => exact absurd h.1 not_false
   | pair name attr opening inner closing => exact absurd h.1 not_false
   | unclosed name opening inner =>
    have hinner := plain_gatherAll [] rfl inner h.1
    have hfold := foldl_itemText (value ++ opening) _ hinner
    rw [← append_textNodes, contents_gatherAll, List.append_assoc] at hfold
    exact hfold
  rw [Builder.gatherAll, hpiece, ih _ hplaced.2 h.2, keptAll, List.append_assoc]

mutual

theorem kept_written :
  ∀ piece : Piece, piece.Inserts False → piece.NothingClosed → piece.kept = piece.written
 | .text _, _, _ => rfl
 | .item _, _, _ => rfl
 | .closeItem _, hinserts, _ => absurd hinserts.1 not_false
 | .code _ _ _ _ _, _, h => h.elim
 | .pair _ _ _ _ _, _, h => h.elim
 | .unclosed _ opening inner, hinserts, h => congrArg (opening ++ ·) (keptAll_written inner hinserts h)

theorem keptAll_written :
  ∀ pieces : List Piece, InsertsAll False pieces → NothingClosed pieces →
   keptAll pieces = writtenAll pieces
 | [], _, _ => rfl
 | piece :: pieces, hinserts, h => by
  rw [keptAll, writtenAll, kept_written piece hinserts.1 h.1, keptAll_written pieces hinserts.2 h.2]

end

end Unclosed

section Losses

/-- The source is what the tree keeps with the tags of this record put back, and
    these are the tags of pairs and the ends of items of list elements. -/
structure Rebuilds (source : Text) (pieces : List Piece) : Prop where
  nodes : nodeBuilder.gathered pieces = parse source
  kept : keptAll pieces = contentsAll (parse source)
  written : writtenAll pieces = source
  inserts : InsertsAll False pieces

structure LosesNothing (source : Text) : Prop where
  rebuilt : Rebuilds source (trace source)
  unclosed : NothingClosed (trace source) → parse source = textNodes source
  items : ItemsInLists False (parse source)
  nested : heightAll (parse source) ≤ maxNesting

/-- Nothing is lost but the ends of items in lists that stay open, and nothing is
    too deep but code read at the limit. -/
theorem losesNothing_iff (source : Text) :
    LosesNothing source ↔ LeftInLists False (trace source) ∧ NoDeepCode (trace source) := by
 obtain ⟨hwritten, hplaced⟩ := trace_keeps source
 have hends : (trace source).any Piece.isItemEnd = true → False := itemEnd_placed 0 False _ hplaced
 have hinserts : InsertsAll False (trace source) ↔ LeftInLists False (trace source) := by
  rw [insertsAll_iff 0 False False _ hplaced]
  exact and_iff_right hends
 have hnested : heightAll (parse source) ≤ maxNesting ↔ NoDeepCode (trace source) := by
  rw [height_parse]
  exact (placedAll_height 0 False (Nat.zero_le _) _ hplaced).2
 have hnodes : nodeBuilder.gathered (trace source) = parse source := (parseWith_eq nodeBuilder source).symm
 constructor
 · intro h
   exact ⟨hinserts.mp h.rebuilt.inserts, hnested.mp h.nested⟩
 · rintro ⟨hleft, hcode⟩
   have hinserted := hinserts.mpr hleft
   have hkept : keptAll (trace source) = contentsAll (parse source) := by
    rw [← hnodes, Builder.gathered, contents_gatherAll]
    rfl
   refine ⟨⟨hnodes, hkept, hwritten, hinserted⟩, fun hopen => ?_, items_parse source, hnested.mpr hcode⟩
   have htext := gatherAll_textNodes 0 [] (trace source) hplaced hopen
   rw [List.nil_append, keptAll_written _ hinserted hopen, hwritten] at htext
   exact hnodes.symm.trans htext

/-- The end of an item in a list never closed is in no record that rebuilds the
    source, and code inside thirty-two elements is a thirty-third. -/
theorem losesNothing_fails :
  (∀ pieces, ¬ Rebuilds "[list][/*]".toList pieces) ∧ ¬ LosesNothing "[list][/*]".toList ∧
    maxNesting < heightAll (parse ((List.replicate 32 "[b]".toList).flatten ++ "[code]x[/code]".toList ++
      (List.replicate 32 "[/b]".toList).flatten)) := by
 have hlost : ∀ pieces, ¬ Rebuilds "[list][/*]".toList pieces := by
  intro pieces h
  have hkept : (keptAll pieces).length = 6 := by
   rw [h.kept]
   decide +kernel
  have hwritten : (writtenAll pieces).length = 10 := congrArg List.length h.written
  have hlength := insertsAll_length pieces h.inserts
  omega
 exact ⟨hlost, fun h => hlost _ h.rebuilt, by decide +kernel⟩

end Losses

end BoardGamesEmpire.Bbcode
