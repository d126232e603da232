import OpenWifi.Lib.Fuel
import OpenWifi.Lib.LinkedTree

/-!
# The item hash of smartcapwap (`common/capwap_hash.c`)

A hash is an array of buckets, each the root pointer of a parent-linked AVL tree of items.  A function answers `none`
when it reads through `NULL` or through freed memory, and a loop also when its fuel runs out.
-/

namespace OpenWifi.CapwapHash

open LinkedTree
open Function (update)

/-- The fields of `struct capwap_hash_item` that are not links of the tree and not the height. -/
structure Core (δ : Type) where
  data : δ
  removenext : Option Addr
  deriving DecidableEq

abbrev Items (δ : Type) := Heap (Core δ)

/-- The answers of a `capwap_hash_item_foreach` callback. -/
inductive Verdict
  | hashBreak
  | hashContinue
  | hashDeleteAndBreak
  | hashDeleteAndContinue
  deriving DecidableEq

/-- `(result == HASH_DELETE_AND_BREAK) || (result == HASH_DELETE_AND_CONTINUE)` -/
def Verdict.deletes : Verdict → Bool
  | hashDeleteAndBreak | hashDeleteAndContinue => true
  | _ => false

/-- `(result == HASH_BREAK) || (result == HASH_DELETE_AND_BREAK)` -/
def Verdict.breaks : Verdict → Bool
  | hashBreak | hashDeleteAndBreak => true
  | _ => false

/-- The callback functions of a hash: a hash function into `[0, hashsize)` and a comparison that
is a total order on keys. -/
structure Callbacks (κ δ : Type) [LinearOrder κ] where
  itemGethash : κ → ℕ → ℕ
  itemGetkey : δ → κ
  itemCmp : κ → κ → ℤ
  gethash_lt : ∀ key hashsize, 0 < hashsize → itemGethash key hashsize < hashsize
  cmp_neg : ∀ key1 key2, itemCmp key1 key2 < 0 ↔ key1 < key2
  cmp_zero : ∀ key1 key2, itemCmp key1 key2 = 0 ↔ key1 = key2

/-- `struct capwap_hash`, with the item memory and the next address `capwap_alloc` gives out. -/
structure Hash (δ : Type) where
  heap : Items δ
  fresh : Addr
  items : ℕ → Option Addr
  hashsize : ℕ
  count : ℕ
  removeitems : Option Addr

/-- One bucket: the item memory and the slot that the `root` arguments of the source point to. -/
structure Bucket (δ : Type) where
  heap : Items δ
  root : Option Addr

variable {κ δ : Type}

/-! ## Linking items -/

variable (m : Items δ) (item : Addr)

/-- `capwap_hash_update_height` -/
def updateHeight : Option (Items δ) := do
  let it ← m item
  let height ← match it.left, it.right with
    | some l, some r => do
        let left ← m l
        let right ← m r
        pure (if left.height > right.height then left.height + 1 else right.height + 1)
    | some l, none => do
        let left ← m l
        pure (left.height + 1)
    | none, some r => do
        let right ← m r
        pure (right.height + 1)
    | none, none => pure 0
  pure (update m item (some { it with height := height }))

variable (child : Option Addr)

/-- `child->parent = parent`, unless `child` is `NULL`. -/
def setParent (parent : Option Addr) : Option (Items δ) :=
  match child with
  | none => some m
  | some c => do
      let it ← m c
      pure (update m c (some { it with parent := parent }))

/-- The common body of `capwap_hash_set_left_item` and `capwap_hash_set_right_item`. -/
def setItem (s : Side) (m : Items δ) (item : Addr) (child : Option Addr) : Option (Items δ) := do
  let m ← setParent m child (some item)
  let it ← m item
  updateHeight (update m item (some (it.setChild s child))) item

/-- `capwap_hash_set_left_item` -/
def setLeftItem : Option (Items δ) :=
  setItem .left m item child

/-- `capwap_hash_set_right_item` -/
def setRightItem : Option (Items δ) :=
  setItem .right m item child

/-- `parent->left == item`, read only when there is a parent. -/
def parentSide (parent : Option Addr) (item : Addr) : Option Side :=
  match parent with
  | none => some .right
  | some p => do
      let it ← m p
      pure (if it.left = some item then .left else .right)

variable (b : Bucket δ)

/-- Put `child` in the place an item has under its parent or in the bucket, as at the end of the rotations and of the
unlinking. -/
def attach (parent : Option Addr) (side : Side) (child : Option Addr) : Option (Bucket δ) :=
  match parent with
  | some p => do
      let m ← setItem side b.heap p child
      pure { b with heap := m }
  | none => do
      let m ← setParent b.heap child none
      pure ⟨m, child⟩

/-- The common body of `capwap_hash_rotate_left` and `capwap_hash_rotate_right`. -/
def rotate (s : Side) (b : Bucket δ) (item : Addr) : Option (Bucket δ) := do
  let it ← b.heap item
  let side ← parentSide b.heap it.parent item
  let up ← it.child s.flip
  let upit ← b.heap up
  let m ← setItem s.flip b.heap item (upit.child s)
  let m ← setItem s m up (some item)
  attach { b with heap := m } it.parent side (some up)

/-- `capwap_hash_rotate_left` -/
def rotateLeft (item : Addr) : Option (Bucket δ) := rotate .left b item

/-- `capwap_hash_rotate_right` -/
def rotateRight (item : Addr) : Option (Bucket δ) := rotate .right b item

/-- `capwap_hash_get_balance_item` -/
def getBalanceItem : Option ℤ := do
  let it ← m item
  match it.left, it.right with
  | some l, some r => do
      let left ← m l
      let right ← m r
      pure (left.height - right.height)
  | some l, none => do
      let left ← m l
      pure (left.height + 1)
  | none, some r => do
      let right ← m r
      pure (-(right.height + 1))
  | none, none => pure 0

/-- `capwap_hash_balance_tree` -/
def balanceTree (item : Addr) : Option (Bucket δ) := do
  let result ← getBalanceItem b.heap item
  if result > 1 then do
    let it ← b.heap item
    let left ← it.left
    let leftBalance ← getBalanceItem b.heap left
    let b ← if leftBalance < 0 then rotateLeft b left else pure b
    rotateRight b item
  else if result < -1 then do
    let it ← b.heap item
    let right ← it.right
    let rightBalance ← getBalanceItem b.heap right
    let b ← if rightBalance > 0 then rotateRight b right else pure b
    rotateLeft b item
  else pure b

/-- `while (replacement->right) replacement = replacement->right`, and its mirror image. -/
def descend (s : Side) (m : Items δ) : ℕ → Addr → Option Addr
  | 0, _ => none
  | fuel + 1, replacement => do
      let it ← m replacement
      match it.child s with
      | none => pure replacement
      | some next => descend s m fuel next

/-- Take the neighbour of `search` out of its subtree on side `s` and give it both subtrees of
`search`: the predecessor for the left side, the successor for the right side. -/
def takeReplacement (fuel : ℕ) (s : Side) (m : Items δ) (search : Addr) : Option (Items δ × Addr) := do
  let it ← m search
  let next ← it.child s
  let nextit ← m next
  match nextit.child s.flip with
  | none => do
      let m ← setItem s.flip m next (it.child s.flip)
      pure (m, next)
  | some inner => do
      let replacement ← descend s.flip m fuel inner
      let rit ← m replacement
      let parent ← rit.parent
      let m ← setItem s.flip m parent (rit.child s)
      let m ← setLeftItem m replacement it.left
      let m ← setRightItem m replacement it.right
      pure (m, replacement)

def unlink (parent : Option Addr) (side : Side) (child : Option Addr) : Option (Bucket δ) := do
  let b ← attach b parent side child
  match parent with
  | some p => balanceTree b p
  | none => pure b

/-- `capwap_hash_deleteitem` -/
def deleteItem (fuel : ℕ) (hash : Hash δ) (search : Addr) (hashvalue : ℕ) : Option (Hash δ) := do
  let it ← hash.heap search
  let side ← parentSide hash.heap it.parent search
  let slot : Bucket δ := ⟨hash.heap, hash.items hashvalue⟩
  let b ← match it.left, it.right with
    | none, none => unlink slot it.parent side none
    | some l, none => unlink slot it.parent side (some l)
    | none, some r => unlink slot it.parent side (some r)
    | some _, some _ => do
        let balance ← getBalanceItem hash.heap search
        let (m, replacement) ←
          takeReplacement fuel (if balance > 0 then .left else .right) hash.heap search
        let b ← attach { slot with heap := m } it.parent side (some replacement)
        balanceTree b replacement
  -- capwap_hash_free_item
  pure { hash with
    heap := update b.heap search none
    items := update hash.items hashvalue b.root
    count := hash.count - 1 }

/-! ## The hash -/

/-- `capwap_hash_create` -/
def create (hashsize : ℕ) : Hash δ := ⟨fun _ => none, 0, fun _ => none, hashsize, 0, none⟩

/-- `capwap_hash_create_item` -/
def createItem (hash : Hash δ) (data : δ) : Hash δ × Addr :=
  ({ hash with
      heap := update hash.heap hash.fresh (some ⟨⟨data, none⟩, 0, none, none, none⟩)
      fresh := hash.fresh + 1 }, hash.fresh)

section

variable [LinearOrder κ] (cb : Callbacks κ δ)

/-- The loop of `capwap_hash_search_items`.  It steps to the children of `item`, the root it was given. -/
def searchItems (hash : Hash δ) (item : Addr) (key : κ) : ℕ → Option Addr → Option (Option Addr)
  | _, none => some none
  | 0, some _ => none
  | fuel + 1, some search => do
      let it ← hash.heap search
      let result := cb.itemCmp key (cb.itemGetkey it.core.data)
      if result = 0 then pure (some search)
      else do
        let top ← hash.heap item
        if result < 0 then searchItems hash item key fuel top.left
        else searchItems hash item key fuel top.right

variable (fuel : ℕ) (hash : Hash δ)

/-- `capwap_hash_search` -/
def search (key : κ) : Option (Option δ) :=
  match hash.items (cb.itemGethash key hash.hashsize) with
  | none => some none
  | some items => do
      match ← searchItems cb hash items key fuel (some items) with
      | none => pure none
      | some result => do
          let it ← hash.heap result
          pure (some it.core.data)

/-- Hang a new item for `data` under `search` on side `s`. -/
def addBelow (search : Addr) (s : Side) (data : δ) : Option (Hash δ × Option Addr) := do
  let (hash, item) := createItem { hash with count := hash.count + 1 } data
  let m ← setItem s hash.heap search (some item)
  pure ({ hash with heap := m }, some item)

/-- The descent of `capwap_hash_add`: it replaces the data of the item with this key, or creates the item. -/
def addLoop (key : κ) (data : δ) (hash : Hash δ) : ℕ → Addr → Option (Hash δ × Option Addr)
  | 0, _ => none
  | fuel + 1, search => do
      let it ← hash.heap search
      let result := cb.itemCmp key (cb.itemGetkey it.core.data)
      if result = 0 then
        pure ({ hash with
          heap := update hash.heap search
            (some { it with core := ⟨data, it.core.removenext⟩ }) }, none)
      else if result < 0 then
        match it.left with
        | some l => addLoop key data hash fuel l
        | none => addBelow hash search .left data
      else
        match it.right with
        | some r => addLoop key data hash fuel r
        | none => addBelow hash search .right data

/-- The rebalancing loop of `capwap_hash_add`, from the new item up to the root. -/
def rebalance (b : Bucket δ) : ℕ → Option Addr → Option (Bucket δ)
  | _, none => some b
  | 0, some _ => none
  | fuel + 1, some item => do
      let m ← updateHeight b.heap item
      let b ← balanceTree { b with heap := m } item
      let it ← b.heap item
      rebalance b fuel it.parent

/-- `capwap_hash_add` -/
def add (data : δ) : Option (Hash δ) :=
  let key := cb.itemGetkey data
  let hashvalue := cb.itemGethash key hash.hashsize
  match hash.items hashvalue with
  | none =>
      let (hash, item) := createItem { hash with count := hash.count + 1 } data
      some { hash with items := update hash.items hashvalue (some item) }
  | some top => do
      let (hash, item) ← addLoop cb key data hash fuel top
      let b ← rebalance ⟨hash.heap, hash.items hashvalue⟩ fuel item
      pure { hash with heap := b.heap, items := update hash.items hashvalue b.root }

/-- `capwap_hash_delete` -/
def delete (key : κ) : Option (Hash δ) :=
  let hashvalue := cb.itemGethash key hash.hashsize
  match hash.items hashvalue with
  | none => some hash
  | some items => do
      match ← searchItems cb hash items key fuel (some items) with
      | none => pure hash
      | some search => deleteItem fuel hash search hashvalue

/-! ## Walking the hash -/

structure Walk (δ : Type) where
  hash : Hash δ
  calls : List (δ × Verdict)

def visitItem (verdict : ℕ → δ → Verdict) (w : Walk δ) (item : Addr) : Option (Walk δ × Bool) := do
  let it ← w.hash.heap item
  let result := verdict w.calls.length it.core.data
  let next := if result.deletes then w.hash.removeitems else none
  let heap := update w.hash.heap item (some { it with core := ⟨it.core.data, next⟩ })
  let removeitems := if result.deletes then some item else w.hash.removeitems
  pure (⟨{ w.hash with heap := heap, removeitems := removeitems }, w.calls ++ [(it.core.data, result)]⟩, result.breaks)

/-- `capwap_hash_foreach_items`; the flag of the answer is `result == HASH_BREAK`. -/
def foreachItems (verdict : ℕ → δ → Verdict) : ℕ → Walk δ → Option Addr → Option (Walk δ × Bool)
  | _, w, none => some (w, false)
  | 0, _, some _ => none
  | fuel + 1, w, some item => do
      let it ← w.hash.heap item
      let (w, stop) ← foreachItems verdict fuel w it.left
      if stop then pure (w, true)
      else do
        let (w, stop) ← visitItem verdict w item
        if stop then pure (w, true)
        else do
          let it ← w.hash.heap item
          foreachItems verdict fuel w it.right

/-- The loop of `capwap_hash_foreach` over the buckets from `i` on, `left` of them. -/
def foreachBuckets (verdict : ℕ → δ → Verdict) (fuel : ℕ) : ℕ → ℕ → Walk δ → Option (Walk δ)
  | 0, _, w => some w
  | left + 1, i, w => do
      let (w, stop) ← foreachItems verdict fuel w (w.hash.items i)
      if stop then pure w else foreachBuckets verdict fuel left (i + 1) w

def removeFirst (item : Addr) : Option (Hash δ) := do
  let it ← hash.heap item
  let key := cb.itemGetkey it.core.data
  deleteItem fuel { hash with removeitems := it.core.removenext } item
    (cb.itemGethash key hash.hashsize)

/-- `while (hash->removeitems)`: delete the marked items. -/
def removeMarked (fuel : ℕ) : ℕ → Hash δ → Option (Hash δ)
  | 0, hash => if hash.removeitems = none then some hash else none
  | n + 1, hash =>
      match hash.removeitems with
      | none => some hash
      | some item => do
          let hash ← removeFirst cb fuel hash item
          removeMarked fuel n hash

/-- `capwap_hash_foreach`, with the callback calls it made. -/
def foreach (verdict : ℕ → δ → Verdict) (fuel : ℕ) (hash : Hash δ) : Option (Hash δ × List (δ × Verdict)) := do
  let w ← foreachBuckets verdict fuel hash.hashsize 0 ⟨{ hash with removeitems := none }, []⟩
  let hash ← removeMarked cb fuel fuel w.hash
  pure (hash, w.calls)

end

end OpenWifi.CapwapHash
