/-!
# Regular expressions: the trie of a choice among literals

A choice whose branches are all literals is compiled through a trie of their bytes.
Each node of the trie keeps its edges, sorted by byte, and cuts them into chunks: a cut
after the edges present when a literal ended at the node records that match, so the
literals before it are preferred to it and those after it are not. A node with a match
and no edges is a leaf; a literal that reaches a leaf before its end can never be the
match found and is left out.

The size of the compiled trie is what matters here: each chunk with edges becomes one
state, and each node one union of its chunks and its matches.
-/

namespace RuleScript

namespace Regex

/-- A node of a trie: its edges as pairs of a byte and a node, and its chunks as ranges
of places in the edges. -/
structure TrieNode where
  edges : Array (Nat × Nat)
  chunks : Array (Nat × Nat)
deriving Repr, Inhabited

namespace TrieNode

def fresh : TrieNode := ⟨#[], #[]⟩

def isLeaf (n : TrieNode) : Bool := !n.chunks.isEmpty && n.edges.isEmpty

def activeStart (n : TrieNode) : Nat := (n.chunks.back?.map (·.2)).getD 0

def addMatch (n : TrieNode) : TrieNode :=
  if n.edges.isEmpty && !n.chunks.isEmpty then n
  else { n with chunks := n.chunks.push (n.activeStart, n.edges.size) }

def chunkList (n : TrieNode) : List (List (Nat × Nat)) :=
  n.chunks.toList.map (fun c => (n.edges.extract c.1 c.2).toList) ++
    [(n.edges.extract n.activeStart n.edges.size).toList]

end TrieNode

/-- A trie of literals; node 0 is the root. -/
structure Trie where
  nodes : Array TrieNode
deriving Repr, Inhabited

namespace Trie

def empty : Trie := ⟨#[TrieNode.fresh]⟩

def node (t : Trie) (i : Nat) : TrieNode := t.nodes.getD i TrieNode.fresh

/-- The node an edge of the open chunk of node `i` leads to by byte `b`, made if there
is none; a new edge goes in its place by byte within the open chunk. -/
def child (t : Trie) (i b : Nat) : Trie × Nat :=
  let n := t.node i
  let active := (n.edges.extract n.activeStart n.edges.size).toList
  match active.find? (·.1 == b) with
  | some e => (t, e.2)
  | none =>
    let next := t.nodes.size
    let place := n.activeStart + (active.filter (·.1 < b)).length
    let n' := { n with edges := n.edges.insertIdxIfInBounds place (b, next) }
    (⟨(t.nodes.set! i n').push TrieNode.fresh⟩, next)

def addFrom (t : Trie) (i : Nat) : List Nat → Trie
  | [] => ⟨t.nodes.modify i TrieNode.addMatch⟩
  | b :: bs =>
    if (t.node i).isLeaf then t
    else
      let (t', j) := t.child i b
      t'.addFrom j bs

def add (t : Trie) (bytes : List Nat) : Trie := t.addFrom 0 bytes

def ofLiterals (reverse : Bool) (lits : List (List Nat)) : Trie :=
  lits.foldl (fun t bs => t.add (if reverse then bs.reverse else bs)) empty

/-- The states and the extra bytes of the compiled node `i`, and of the nodes below it,
with `fuel` levels to go. Each chunk with edges is one state, of a single range when it
has one edge and otherwise holding eight bytes an edge; the node's union holds four
bytes for each such chunk and for each match. -/
def costAt (t : Trie) : Nat → Nat → Nat × Nat
  | 0, _ => (0, 0)
  | fuel + 1, i =>
    let chunks := (t.node i).chunkList
    let below := chunks.foldl (fun acc chunk =>
      chunk.foldl (fun acc e =>
        if (t.node e.2).isLeaf then acc
        else
          let c := t.costAt fuel e.2
          (acc.1 + c.1, acc.2 + c.2)) acc) (0, 0)
    let filled := chunks.filter (!·.isEmpty)
    let states := filled.length + 1
    let heap := (filled.map fun c => if c.length = 1 then 0 else 8 * c.length).foldr (· + ·) 0
    let alternates := filled.length + (chunks.length - 1)
    (below.1 + states, below.2 + heap + 4 * alternates)

def cost (t : Trie) : Nat × Nat :=
  let c := t.costAt t.nodes.size 0
  (c.1 + 1, c.2)

end Trie

end Regex

end RuleScript
