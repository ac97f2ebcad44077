import KeyRecovery.Provider.Service

/-!
# Channels that know their replies

The provider of a local channel is in the same program: the values of an answer wait in a queue, and
a refusal puts nothing there but is kept as a warning. A scripted channel hands out its replies in
order whatever is asked, and empty values when they have run out; the requests are kept.
-/

namespace KeyRecovery

structure LocalChannel where
  pending : List Bytes
  refusals : List Provider.Refusal

namespace LocalChannel

def fresh : LocalChannel := ⟨[], []⟩

def enqueue (c : LocalChannel) (reply : Provider.Reply) : LocalChannel :=
  ⟨c.pending ++ reply.values, c.refusals ++ reply.refusal?.toList⟩

instance [CurveLibrary] : Channel LocalChannel where
  send request := Session.step fun c =>
    match Provider.answer request with
    | .ok reply => (.ok (), c.enqueue reply)
    | .error e => (.error e, c)
  receive := Session.step fun c =>
    match c.pending with
    | [] => (.error (.recovery .noValue), c)
    | value :: rest => (.ok value, { c with pending := rest })

end LocalChannel

structure ScriptedChannel where
  replies : List Bytes
  requests : List Bytes

namespace ScriptedChannel

def ofReplies (replies : List Bytes) : ScriptedChannel := ⟨replies, []⟩

instance : Channel ScriptedChannel where
  send request := Session.step fun c => (.ok (), { c with requests := c.requests ++ [request] })
  receive := Session.step fun c => (.ok (c.replies.headD []), { c with replies := c.replies.tail })

end ScriptedChannel

end KeyRecovery
