import SisaMessaging.Core.CalendarIntervals
import SisaMessaging.Core.Instant
import SisaMessaging.Nats.ErrorCopy
import SisaMessaging.Nats.HeaderOrder
import SisaMessaging.Nats.Subscribe
import SisaMessaging.Postgres.ClaimCall
import SisaMessaging.Postgres.Gaps
import SisaMessaging.Postgres.InboxOnce
import SisaMessaging.Runtime.OutboxRuns
import SisaMessaging.Runtime.TimedOutbox
import SisaMessaging.Runtime.RollingDeploy
import SisaMessaging.Runtime.InboxOnce
import SisaMessaging.Runtime.Shutdown
import SisaMessaging.Runtime.Expiry
import SisaMessaging.Runtime.Start
import SisaMessaging.Runtime.InMemoryBus
import SisaMessaging.Runtime.Deployment
import SisaMessaging.Nats.Arrivals
