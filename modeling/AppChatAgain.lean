import AppChatAgain.Foundation.Run
import AppChatAgain.Foundation.KeyedLog
import AppChatAgain.Foundation.SortedView
import AppChatAgain.Firebase.Value
import AppChatAgain.Records.Mess
import AppChatAgain.Records.User
import AppChatAgain.Chat.Isolation
import AppChatAgain.Chat.Transcript
import AppChatAgain.Inbox.Callback
import AppChatAgain.Inbox.Preview
import AppChatAgain.Inbox.Frame
import AppChatAgain.Send.Users
import AppChatAgain.Send.Integrity
import AppChatAgain.Send.View
import AppChatAgain.Send.Completeness
import AppChatAgain.Send.Content
import AppChatAgain.Send.Storage
import AppChatAgain.Send.Attribution
import AppChatAgain.Send.Passwords
import AppChatAgain.Inbox.Sessions
import AppChatAgain.Inbox.Convergence
import AppChatAgain.Dictionary.Sorted
import AppChatAgain.Keys.NextPushId
import AppChatAgain.Chat.Convergence
import AppChatAgain.View.ImageLoader
import AppChatAgain.View.ImageCache
import AppChatAgain.View.Avatar
import AppChatAgain.View.InboxCell
import AppChatAgain.View.ChatCell
import AppChatAgain.View.Zoom
import AppChatAgain.Account.Profiles
import AppChatAgain.Account.Inboxes
import AppChatAgain.Account.Traces
