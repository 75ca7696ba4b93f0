import NanoTwitter.Lib.Run
import NanoTwitter.Lib.Interleave
import NanoTwitter.Lib.Commit
import NanoTwitter.Lib.State
import NanoTwitter.Lib.Simulation
import NanoTwitter.Lib.Table
import NanoTwitter.Lib.Store
import NanoTwitter.Lib.Ruby
import NanoTwitter.Lib.Json
import NanoTwitter.Lib.Words
import NanoTwitter.Lib.Template
import NanoTwitter.Lib.Url
import NanoTwitter.Lib.Pattern
import NanoTwitter.Lib.Traversal
import NanoTwitter.Model.Schema
import NanoTwitter.Model.Keys
import NanoTwitter.Model.Values
import NanoTwitter.Model.Records
import NanoTwitter.Model.RedisOperations
import NanoTwitter.Model.TweetProcessor
import NanoTwitter.Model.Cache
import NanoTwitter.Model.Session
import NanoTwitter.Model.Views
import NanoTwitter.Model.App
import NanoTwitter.Model.Api
import NanoTwitter.Model.Routes
import NanoTwitter.Model.Client
import NanoTwitter.Sequential.Wellformed
import NanoTwitter.Sequential.Operations
import NanoTwitter.Sequential.FollowCounters
import NanoTwitter.Sequential.FeedEntries
import NanoTwitter.Sequential.FrontFeed
import NanoTwitter.Sequential.KeySpace
import NanoTwitter.Sequential.Walls
import NanoTwitter.Sequential.Delivery
import NanoTwitter.Sequential.Replies
import NanoTwitter.Concurrent.FrontFeedCap
import NanoTwitter.Concurrent.Counters
import NanoTwitter.Concurrent.FeedOrder
import NanoTwitter.Concurrent.Likes
import NanoTwitter.Concurrent.Uniqueness
import NanoTwitter.Concurrent.Serializable
import NanoTwitter.Concurrent.Drift
import NanoTwitter.Concurrent.AllRequests
import NanoTwitter.Web.FollowViews
import NanoTwitter.Web.Outcome
import NanoTwitter.Web.Writes
import NanoTwitter.Web.Site
import NanoTwitter.Web.Orderly
import NanoTwitter.Web.Identity
import NanoTwitter.Web.Failures
import NanoTwitter.Web.FeedFormats
import NanoTwitter.Web.Authorship
import NanoTwitter.Web.PasswordHash
import NanoTwitter.Web.HomePage
import NanoTwitter.Web.Unfollow
import NanoTwitter.Web.LikeButton
import NanoTwitter.Web.Registration
import NanoTwitter.Web.Routing
import NanoTwitter.Web.Names
import NanoTwitter.Web.Filing
import NanoTwitter.Web.History
import NanoTwitter.Browser.Tab
import NanoTwitter.Browser.Threads
import NanoTwitter.Browser.Toggle
import NanoTwitter.Browser.Replying
import NanoTwitter.Browser.Hearts
import NanoTwitter.Client.Terminal
import NanoTwitter.Client.Desk
import NanoTwitter.Client.Sessions
import NanoTwitter.Client.Authentic
import NanoTwitter.Client.Calls
import NanoTwitter.Client.Refinement
import NanoTwitter.Text.Linking
import NanoTwitter.Text.TagLinks
import NanoTwitter.Text.TweetLimit
import NanoTwitter.Text.Search
