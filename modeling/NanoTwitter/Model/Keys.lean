import Mathlib.Tactic
import NanoTwitter.Model.Schema

/-!
# The Redis keys

`redis_operations.rb` builds its keys by splicing ids, tag names and reply targets between fixed
texts. A `Slot` is a key family with its parameter, `Slot.key` the text the code builds for it.
Tag names and reply targets are texts that users choose.

`Slot.key_injective`: two slots never share a key.
-/

namespace NanoTwitter

open Ruby (decimal decimal_injective)

/-- The key families of `redis_operations.rb` with their parameters. -/
inductive Slot
  | ffeed
  | pfeed (userId : ℕ)
  | hfeed (userId : ℕ)
  | replies (tweetId : Text)
  | tag (name : Text)
  | likes (tweetId : ℕ)
  deriving DecidableEq

namespace Slot

/-- The key of a slot. -/
def key : Slot → Text
  | .ffeed => "ffeed"
  | .pfeed u => ("user:" : Text) ++ decimal u ++ (":pfeed" : Text)
  | .hfeed u => ("user:" : Text) ++ decimal u ++ (":hfeed" : Text)
  | .replies t => ("tweet:" : Text) ++ t ++ (":replies" : Text)
  | .tag n => ("tag:" : Text) ++ n
  | .likes t => ("tweet:" : Text) ++ decimal t ++ (":likes" : Text)

/-- The slots whose keys hold lists; the key of a `likes` slot holds a set. -/
def isFeed : Slot → Bool
  | .likes _ => false
  | _ => true

/-! The keys, character by character. -/

theorem key_ffeed : key .ffeed = ['f', 'f', 'e', 'e', 'd'] := rfl

theorem key_pfeed (u : ℕ) : key (.pfeed u) =
    'u' :: 's' :: 'e' :: 'r' :: ':' :: (decimal u ++ [':', 'p', 'f', 'e', 'e', 'd']) := rfl

theorem key_hfeed (u : ℕ) : key (.hfeed u) =
    'u' :: 's' :: 'e' :: 'r' :: ':' :: (decimal u ++ [':', 'h', 'f', 'e', 'e', 'd']) := rfl

theorem key_replies (t : Text) : key (.replies t) =
    't' :: 'w' :: 'e' :: 'e' :: 't' :: ':' :: (t ++ [':', 'r', 'e', 'p', 'l', 'i', 'e', 's']) := rfl

theorem key_tag (n : Text) : key (.tag n) = 't' :: 'a' :: 'g' :: ':' :: n := rfl

theorem key_likes (t : ℕ) : key (.likes t) =
    't' :: 'w' :: 'e' :: 'e' :: 't' :: ':' :: (decimal t ++ [':', 'l', 'i', 'k', 'e', 's']) := rfl

/-- **Two slots never share a key.** -/
theorem key_injective : Function.Injective key := by
  intro a b h
  cases a <;> cases b <;>
    simp only [key_ffeed, key_pfeed, key_hfeed, key_replies, key_tag, key_likes, List.cons.injEq,
      Char.reduceEq, false_and, true_and, and_false, reduceCtorEq,
      List.append_cancel_right_eq] at h ⊢
  case replies.replies => rw [h]
  case tag.tag => rw [h]
  case pfeed.pfeed => rw [decimal_injective h]
  case hfeed.hfeed => rw [decimal_injective h]
  case likes.likes => rw [decimal_injective h]
  -- the remaining pairs agree in front; reversed, their fixed ends differ
  all_goals
    have hr := congrArg List.reverse h
    simp only [List.reverse_append, List.reverse_cons, List.reverse_nil, List.nil_append,
      List.cons_append, List.cons.injEq, Char.reduceEq, false_and, and_false] at hr

theorem key_ne {a b : Slot} (h : a ≠ b) : a.key ≠ b.key := fun hk => h (key_injective hk)

end Slot

end NanoTwitter
