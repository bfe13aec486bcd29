import RubyPress.Tree.Node

/-!
Decidable comparison of trees, part by part.
-/

namespace RubyPress.Node

mutual

def same : Node → Node → Bool
  | call r m as ps b f, call r' m' as' ps' b' f' =>
    sameOption r r' && m == m' && sameList as as' && ps == ps' && sameOption b b' &&
      sameOption f f'
  | definition m ps b, definition m' ps' b' => m == m' && ps == ps' && b.same b'
  | ifElse c t e, ifElse c' t' e' => c.same c' && t.same t' && sameOption e e'
  | unlessElse c t e, unlessElse c' t' e' => c.same c' && t.same t' && sameOption e e'
  | caseWhen p cs ws e, caseWhen p' cs' ws' e' =>
    p.same p' && sameList cs cs' && sameList ws ws' && sameOption e e'
  | ret a, ret a' => a.same a'
  | yielding as, yielding as' => sameList as as'
  | boolean v, boolean v' => v == v'
  | classDef p s b, classDef p' s' b' => p == p' && s == s' && b.same b'
  | moduleDef p b, moduleDef p' b' => p == p' && b.same b'
  | selfRef, selfRef => true
  | logicalAnd l r, logicalAnd l' r' => l.same l' && r.same r'
  | logicalOr l r, logicalOr l' r' => l.same l' && r.same r'
  | localRead n, localRead n' => n == n'
  | localWrite n r, localWrite n' r' => n == n' && r.same r'
  | instanceRead n, instanceRead n' => n == n'
  | instanceWrite n r, instanceWrite n' r' => n == n' && r.same r'
  | constRead b n, constRead b' n' => sameOption b b' && n == n'
  | constWrite p r, constWrite p' r' => p == p' && r.same r'
  | string v, string v' => v == v'
  | integer v, integer v' => v == v'
  | array es, array es' => sameList es es'
  | symbol v, symbol v' => v == v'
  | hash ks vs, hash ks' vs' => sameList ks ks' && sameList vs vs'
  | interpolatedString ps, interpolatedString ps' => sameList ps ps'
  | interpolatedSymbol ps, interpolatedSymbol ps' => sameList ps ps'
  | including as, including as' => sameList as as'
  | nil, nil => true
  | block ss, block ss' => sameList ss ss'
  | unmapped c, unmapped c' => c == c'
  | _, _ => false
termination_by structural node => node

def sameList : List Node → List Node → Bool
  | [], [] => true
  | x :: xs, y :: ys => x.same y && sameList xs ys
  | _, _ => false
termination_by structural nodes => nodes

def sameOption : Option Node → Option Node → Bool
  | none, none => true
  | some x, some y => x.same y
  | _, _ => false
termination_by structural node => node

end

instance : BEq Node := ⟨same⟩

end RubyPress.Node
